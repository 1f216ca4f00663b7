import ModuleLowering.Proofs.FreshNames
import ModuleLowering.Proofs.Success
import ModuleLowering.Registry.Lowering

/-!
# Laws of resolving

A specifier is resolved to the module of its key. Each key gets one module, when it is resolved
first, so the modules stand in the order of the first references to them, and no identifier is given
twice. What is bound reads from the module of its source.
-/

set_option autoImplicit false

namespace ModuleLowering

/-- Between two states of a resolver the modules `new` were registered. -/
structure Resolved (r r' : Resolver) (new : List ResolvedModule) : Prop where
  resolution : r'.resolution = r.resolution
  modules : r'.modules = r.modules ++ new
  names : Allocated r.names r'.names (new.map ResolvedModule.ident)
  keys : ∀ m ∈ new, m.key = r.resolution.key m.specifier

namespace Resolved

theorem refl (r : Resolver) : Resolved r r [] :=
  ⟨rfl, (List.append_nil _).symm, .refl r.names, by simp⟩

/-- What is registered in two runs in a row. -/
theorem trans {r r' r'' : Resolver} {early late : List ResolvedModule} (h : Resolved r r' early)
    (k : Resolved r' r'' late) : Resolved r r'' (early ++ late) := by
  refine ⟨k.resolution.trans h.resolution, ?_, ?_, ?_⟩
  · rw [k.modules, h.modules, List.append_assoc]
  · rw [List.map_append]
    exact h.names.trans k.names
  · intro m hm
    rcases List.mem_append.1 hm with hearly | hlate
    · exact h.keys m hearly
    · rw [k.keys m hlate, h.resolution]

end Resolved

namespace Resolver

/-- The keys that were resolved, in order, are `keys`. -/
def HasResolved (r : Resolver) (keys : List ModuleKey) : Prop :=
  r.modules.map ResolvedModule.key = keys.eraseDups

/-- A specifier is resolved to a module of its key, which is registered if there is none yet. -/
theorem resolve_spec (r : Resolver) (specifier : Text) (keys : List ModuleKey)
    (hkeys : r.HasResolved keys) :
    ∃ new, Resolved r (r.resolve specifier).2 new ∧
      (r.resolve specifier).1 ∈ (r.resolve specifier).2.modules ∧
      (r.resolve specifier).1.key = r.resolution.key specifier ∧
      (r.resolve specifier).2.HasResolved (keys ++ [r.resolution.key specifier]) := by
  unfold HasResolved at hkeys ⊢
  unfold resolve
  rw [List.eraseDups_append, ← hkeys]
  cases hfind : r.find? (r.resolution.key specifier) with
  | some m =>
    have hmem : m ∈ r.modules := List.mem_of_find?_eq_some hfind
    have hkey : m.key = r.resolution.key specifier := by
      simpa using List.find?_some hfind
    refine ⟨[], .refl r, hmem, hkey, ?_⟩
    have hin : r.resolution.key specifier ∈ keys := by
      rw [← List.mem_eraseDups, ← hkeys, ← hkey]
      exact List.mem_map_of_mem hmem
    simp [List.removeAll, hin]
  | none =>
    have hnotin : r.resolution.key specifier ∉ keys := by
      intro hin
      rw [← List.mem_eraseDups, ← hkeys] at hin
      obtain ⟨m, hm, hkey⟩ := List.mem_map.1 hin
      exact absurd (decide_eq_true hkey) (List.find?_eq_none.1 hfind m hm)
    refine ⟨[_], ⟨rfl, rfl, ?_, ?_⟩, ?_, rfl, ?_⟩
    · exact .fresh r.names ⟨_, rfl⟩
    · intro m hm
      rw [List.mem_singleton.1 hm]
    · exact List.mem_append_right _ (List.mem_singleton.2 rfl)
    · simp [register, List.removeAll, hnotin, List.eraseDups_cons]

end Resolver

/-! ## Bindings -/

/-- A statement binds what a record takes: by reading it from the registered module of its source,
or by an import where the host loads the module and the registry is not asked. -/
inductive Bound (runtimeModule : Bool) (r : Resolver) (record : ImportRecord) (s : Node) :
    Prop where
  | read (specifier : Text) (m : ResolvedModule) (hsource : record.source = .text specifier)
      (hm : m ∈ r.modules) (hkey : m.key = r.resolution.key specifier)
      (hs : s = Node.constant record.name (some (record.value m.ident)))
  | imported (hmode : runtimeModule = false)
      (hhost : ∀ specifier, record.source = .text specifier →
        r.resolution.isExternal specifier = false)
      (hs : s = record.importForm)

namespace Bound

/-- What is bound stays bound when more modules are registered. -/
theorem mono {runtimeModule : Bool} {r r' : Resolver} {new : List ResolvedModule}
    {record : ImportRecord} {s : Node} (h : Bound runtimeModule r record s)
    (hr : Resolved r r' new) : Bound runtimeModule r' record s := by
  cases h with
  | read specifier m hsource hm hkey hs =>
    refine .read specifier m hsource ?_ ?_ hs
    · rw [hr.modules]
      exact List.mem_append_left _ hm
    · rw [hr.resolution]
      exact hkey
  | imported hmode hhost hs =>
    refine .imported hmode ?_ hs
    rw [hr.resolution]
    exact hhost

end Bound

namespace ImportRecord

/-- The key that a record asks the registry for. -/
def key? (runtimeModule : Bool) (resolution : Resolution) (record : ImportRecord) :
    Option ModuleKey :=
  match record.source with
  | .text specifier =>
    if runtimeModule || resolution.isExternal specifier then some (resolution.key specifier)
    else none
  | _ => none

theorem key?_of_text {record : ImportRecord} {specifier : Text}
    (h : record.source = .text specifier) (runtimeModule : Bool) (resolution : Resolution) :
    record.key? runtimeModule resolution =
      if runtimeModule || resolution.isExternal specifier then some (resolution.key specifier)
      else none := by
  unfold key?
  rw [h]

theorem key?_of_not_text {record : ImportRecord}
    (h : ∀ specifier, record.source = .text specifier → False) (runtimeModule : Bool)
    (resolution : Resolution) : record.key? runtimeModule resolution = none := by
  unfold key?
  split
  case h_1 specifier hsource => exact (h specifier hsource).elim
  case h_2 => rfl

/-- Binding something taken resolves its source if the registry is asked. -/
theorem binding_spec {runtimeModule : Bool} {record : ImportRecord} {r r' : Resolver} {s : Node}
    {keys : List ModuleKey} (hkeys : r.HasResolved keys)
    (h : Yields (record.binding runtimeModule) r s r') :
    ∃ new, Resolved r r' new ∧ Bound runtimeModule r' record s ∧
      r'.HasResolved (keys ++ (record.key? runtimeModule r.resolution).toList) := by
  unfold binding at h
  obtain ⟨t, _, hget, hrest⟩ := Yields.bind_iff.1 h
  obtain ⟨rfl, rfl⟩ := Yields.get_iff.1 hget
  split at hrest
  case h_1 specifier hsource =>
    rw [key?_of_text hsource]
    split at hrest
    case isTrue hasked =>
      obtain ⟨_, t, hset, hpure⟩ := Yields.bind_iff.1 hrest
      have ht := Yields.set_iff.1 hset
      subst ht
      obtain ⟨rfl, rfl⟩ := Yields.pure_iff.1 hpure
      obtain ⟨new, hnew, hm, hkey, hresolved⟩ := r.resolve_spec specifier keys hkeys
      refine ⟨new, hnew, .read specifier _ hsource hm ?_ rfl, ?_⟩
      · show _ = (r.resolve specifier).2.resolution.key specifier
        rw [hnew.resolution]
        exact hkey
      · rw [if_pos hasked]
        exact hresolved
    case isFalse hasked =>
      obtain ⟨rfl, rfl⟩ := Yields.pure_iff.1 hrest
      obtain ⟨hmode, hhost⟩ := Bool.or_eq_false_iff.1 (Bool.eq_false_iff.2 hasked)
      refine ⟨[], .refl r, .imported hmode ?_ rfl, ?_⟩
      · intro other hother
        cases hsource.symm.trans hother
        exact hhost
      rw [if_neg hasked, Option.toList_none, List.append_nil]
      exact hkeys
  case h_2 hnotText =>
    split at hrest
    case isTrue => exact (Yields.not_throw hrest).elim
    case isFalse hasked =>
      obtain ⟨rfl, rfl⟩ := Yields.pure_iff.1 hrest
      obtain ⟨hmode, -⟩ := Bool.or_eq_false_iff.1 (Bool.eq_false_iff.2 hasked)
      refine ⟨[], .refl r, .imported hmode (fun s hs => (hnotText s hs).elim) rfl, ?_⟩
      rw [key?_of_not_text hnotText, Option.toList_none, List.append_nil]
      exact hkeys

/-- Binding what records take, one after the other, resolves their sources in this order. -/
theorem bindings_spec {runtimeModule : Bool} {records : List ImportRecord} {r r' : Resolver}
    {bindings : List Node} {keys : List ModuleKey} (hkeys : r.HasResolved keys)
    (h : Yields (records.mapM (binding runtimeModule)) r bindings r') :
    ∃ new, Resolved r r' new ∧ List.Forall₂ (Bound runtimeModule r') records bindings ∧
      r'.HasResolved (keys ++ records.filterMap (key? runtimeModule r.resolution)) := by
  induction records generalizing r bindings keys with
  | nil =>
    obtain ⟨rfl, rfl⟩ := Yields.mapM_nil_iff.1 h
    refine ⟨[], .refl r, .nil, ?_⟩
    rw [List.filterMap_nil, List.append_nil]
    exact hkeys
  | cons record records ih =>
    obtain ⟨s, t, rest, hs, hrest, rfl⟩ := Yields.mapM_cons_iff.1 h
    obtain ⟨early, hearly, hbound, hkeys'⟩ := binding_spec hkeys hs
    obtain ⟨late, hlate, hbounds, hkeys''⟩ := ih hkeys' hrest
    refine ⟨early ++ late, hearly.trans hlate, .cons (hbound.mono hlate) hbounds, ?_⟩
    rw [hearly.resolution, List.append_assoc] at hkeys''
    have hcons : (record :: records).filterMap (key? runtimeModule r.resolution) =
        (record.key? runtimeModule r.resolution).toList ++
          records.filterMap (key? runtimeModule r.resolution) := by
      rw [List.filterMap_cons]
      cases record.key? runtimeModule r.resolution <;> rfl
    rw [hcons]
    exact hkeys''

end ImportRecord

/-! ## Registrations -/

/-- The statements that make the module of a key available under an identifier. -/
def ModuleKey.registration (key : ModuleKey) (ident : Text) : List Node :=
  if key.isExternal then Registry.externalModule ident key.path
  else [Registry.localModule ident key.path]

/-- A module is made available as its key says: the host finds an external one by the specifier
itself, which no table maps. -/
theorem ResolvedModule.registration_eq {m : ResolvedModule} {resolution : Resolution}
    (h : m.key = resolution.key m.specifier) : m.registration = m.key.registration m.ident := by
  unfold registration ModuleKey.registration
  cases hext : m.key.isExternal with
  | false => rfl
  | true =>
    have hexternal : resolution.isExternal m.specifier = true := by
      rw [h] at hext
      exact hext
    have hpath : m.key.path = m.specifier := by
      rw [h]
      unfold Resolution.key Resolution.actualPath
      rw [if_pos hexternal]
    rw [hpath]

end ModuleLowering
