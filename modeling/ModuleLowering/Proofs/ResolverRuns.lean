import ModuleLowering.Proofs.Resolving

/-!
# Runs of a resolver

A resolver is asked for modules and identifiers and about specifiers, and the names that it draws
from give and reserve others in between. Whatever the order of these calls, each key gets one module,
which no later call changes, and its identifier is free when the module is registered.
-/

set_option autoImplicit false

namespace ModuleLowering

/-! ## Calls -/

/-- What a resolver is asked, or the names that it shares. -/
inductive ResolverCall where
  | resolve (specifier : Text)
  | identFor (specifier : Text)
  | isExternal (specifier : Text)
  | actualPath (specifier : Text)
  | fresh (base : Text)
  | reserve (name : Text)
deriving DecidableEq

/-- What a call gives back. -/
inductive ResolverAnswer where
  | entry (m : ResolvedModule)
  | ident (name : Text)
  | external (holds : Bool)
  | path (path : Text)
  | fresh (name : Text)
  | done
deriving DecidableEq

/-- The identifier of the module that a call was for. -/
def ResolverAnswer.ident? : ResolverAnswer → Option Text
  | .entry m => some m.ident
  | .ident name => some name
  | _ => none

namespace ResolverCall

/-- The specifier that a call resolves. -/
def specifier? : ResolverCall → Option Text
  | .resolve specifier | .identFor specifier => some specifier
  | _ => none

/-- What a resolver answers to a call, and what it is afterwards. -/
def run (r : Resolver) : ResolverCall → ResolverAnswer × Resolver
  | .resolve specifier => (.entry (r.resolve specifier).1, (r.resolve specifier).2)
  | .identFor specifier => (.ident (r.resolve specifier).1.ident, (r.resolve specifier).2)
  | .isExternal specifier => (.external (r.resolution.isExternal specifier), r)
  | .actualPath specifier => (.path (r.resolution.actualPath specifier), r)
  | .fresh base => (.fresh (r.names.fresh base).1, { r with names := (r.names.fresh base).2 })
  | .reserve name => (.done, { r with names := r.names.reserve name })

end ResolverCall

namespace Resolver

/-- The resolver after some calls. -/
def after (r : Resolver) : List ResolverCall → Resolver
  | [] => r
  | call :: calls => (call.run r).2.after calls

/-- The calls of a run, each with its answer. -/
def transcript (r : Resolver) : List ResolverCall → List (ResolverCall × ResolverAnswer)
  | [] => []
  | call :: calls => (call, (call.run r).1) :: (call.run r).2.transcript calls

theorem after_append (r : Resolver) (early late : List ResolverCall) :
    r.after (early ++ late) = (r.after early).after late := by
  induction early generalizing r with
  | nil => rfl
  | cons call early ih => exact ih (call.run r).2

/-- An answer is that of the resolver which the calls before have led to. -/
theorem exists_of_mem_transcript {r : Resolver} {calls : List ResolverCall} {call : ResolverCall}
    {answer : ResolverAnswer} (h : (call, answer) ∈ r.transcript calls) :
    ∃ early late, calls = early ++ call :: late ∧ answer = (call.run (r.after early)).1 := by
  induction calls generalizing r with
  | nil => exact absurd h List.not_mem_nil
  | cons first calls ih =>
    rcases List.mem_cons.1 h with heq | hrest
    · obtain ⟨rfl, rfl⟩ := Prod.mk.inj heq
      exact ⟨[], calls, rfl, rfl⟩
    · obtain ⟨early, late, rfl, rfl⟩ := ih hrest
      exact ⟨first :: early, late, rfl, rfl⟩

end Resolver

/-! ## Identifiers of modules -/

/-- What may stand in the identifier of a module. -/
def CodePoint.isPlain (c : CodePoint) : Bool := c.isAsciiLetter || c.isAsciiDigit || c = '_'

/-- A text is an underscore with ASCII letters, digits and underscores behind it. -/
def Text.IsPlainIdent (t : Text) : Prop :=
  ∃ rest : Text, t = CodePoint.ofChar '_' :: rest ∧ ∀ c ∈ rest, c.isPlain = true

theorem Text.isPlain_of_mem_ofNat {n : Nat} {c : CodePoint} (h : c ∈ Text.ofNat n) :
    c.isPlain = true := by
  obtain ⟨digit, hdigit, rfl⟩ := List.mem_map.1 h
  have hrange : digit.isDigit = true :=
    Nat.isDigit_of_mem_toDigits (by decide) (by decide) hdigit
  have hascii : (CodePoint.ofChar digit).isAsciiDigit = true := by
    simp only [Char.isDigit, ge_iff_le, Bool.and_eq_true, decide_eq_true_eq,
      UInt32.le_iff_toNat_le] at hrange
    unfold CodePoint.isAsciiDigit
    rw [Bool.and_eq_true, decide_eq_true_eq, decide_eq_true_eq]
    exact hrange
  rw [CodePoint.isPlain, hascii, Bool.or_true, Bool.true_or]

/-- A new name for a specifier is made of letters, digits and underscores. -/
theorem Names.isPlainIdent_freshName (names : Names) (specifier : Text) :
    (names.freshName (identOfSpecifier specifier)).IsPlainIdent := by
  have hbase : ∀ c ∈ (specifier.map fun (c : CodePoint) =>
      if c.isAsciiLetter || c.isAsciiDigit then c else '_'), c.isPlain = true := by
    intro c hc
    obtain ⟨d, -, rfl⟩ := List.mem_map.1 hc
    unfold CodePoint.isPlain
    split
    case isTrue hd => rw [hd, Bool.true_or]
    case isFalse => decide
  unfold Names.freshName Names.candidate
  split
  · exact ⟨_, rfl, hbase⟩
  · refine ⟨_, List.cons_append, ?_⟩
    intro c hc
    rcases List.mem_append.1 hc with hleft | hright
    · exact hbase c hleft
    · exact Text.isPlain_of_mem_ofNat hright

/-! ## One call -/

/-- A resolver that has resolved `specifiers`, in this order, and began with no modules. -/
structure Reached (resolution : Resolution) (specifiers : List Text) (r : Resolver) : Prop where
  same : r.resolution = resolution
  /-- The modules stand in the order in which their keys came first. -/
  keys : r.HasResolved (specifiers.map resolution.key)
  first : ∀ m ∈ r.modules, specifiers.find? (resolution.key · = m.key) = some m.specifier
  nodup : (r.modules.map ResolvedModule.ident).Nodup
  taken : ∀ m ∈ r.modules, m.ident ∈ r.names.taken
  plain : ∀ m ∈ r.modules, m.ident.IsPlainIdent

namespace Reached

variable {resolution : Resolution} {specifiers : List Text} {r : Resolver}

/-- The names that are taken by others as well make no difference. -/
theorem taking (h : Reached resolution specifiers r) (name : Text) :
    Reached resolution specifiers { r with names := r.names.reserve name } :=
  ⟨h.same, h.keys, h.first, h.nodup, fun m hm => List.mem_cons_of_mem _ (h.taken m hm),
    h.plain⟩

/-- A specifier whose key has no module gets a new one. -/
theorem registering (h : Reached resolution specifiers r) {specifier : Text}
    (hnew : ∀ m ∈ r.modules, m.key ≠ resolution.key specifier)
    (hkeys : (r.register specifier).2.HasResolved
      (specifiers.map resolution.key ++ [resolution.key specifier])) :
    Reached resolution (specifiers ++ [specifier]) (r.register specifier).2 := by
  have hfree : r.names.freshName (identOfSpecifier specifier) ∉ r.names.taken :=
    r.names.freshName_notMem _
  refine ⟨h.same, ?_, ?_, ?_, ?_, ?_⟩
  · rw [List.map_append]
    exact hkeys
  · intro m hm
    rw [List.find?_append]
    rcases List.mem_append.1 hm with hold | hlast
    · rw [h.first m hold, Option.some_or]
    · have hm' := List.mem_singleton.1 hlast
      subst hm'
      -- No specifier of the key came before, as it would have registered a module.
      have hnone : specifiers.find? (resolution.key · = r.resolution.key specifier) = none := by
        rw [List.find?_eq_none, h.same]
        intro other hother
        have hin : resolution.key other ∈ r.modules.map ResolvedModule.key := by
          rw [h.keys, List.mem_eraseDups]
          exact List.mem_map_of_mem hother
        obtain ⟨m, hm, hkey⟩ := List.mem_map.1 hin
        rw [decide_eq_true_eq, ← hkey]
        exact hnew m hm
      rw [hnone, Option.none_or, h.same]
      simp
  · rw [Resolver.register, List.map_append, List.nodup_append]
    refine ⟨h.nodup, List.nodup_singleton _, ?_⟩
    rintro _ hold _ hnewest rfl
    obtain ⟨m, hm, hident⟩ := List.mem_map.1 hold
    rw [List.map_singleton, List.mem_singleton] at hnewest
    refine hfree ?_
    rw [← show _ = r.names.freshName _ from hnewest, ← hident]
    exact h.taken m hm
  · intro m hm
    rcases List.mem_append.1 hm with hold | hlast
    · exact List.mem_cons_of_mem _ (h.taken m hold)
    · rw [List.mem_singleton.1 hlast]
      exact List.mem_cons_self
  · intro m hm
    rcases List.mem_append.1 hm with hold | hlast
    · exact h.plain m hold
    · rw [List.mem_singleton.1 hlast]
      exact r.names.isPlainIdent_freshName specifier

theorem resolving (h : Reached resolution specifiers r) (specifier : Text) :
    Reached resolution (specifiers ++ [specifier]) (r.resolve specifier).2 := by
  obtain ⟨-, -, -, -, hkeys⟩ := r.resolve_spec specifier _ h.keys
  unfold Resolver.resolve at hkeys ⊢
  rw [h.same] at hkeys ⊢
  cases hfind : r.find? (resolution.key specifier) with
  | some m =>
    rw [hfind] at hkeys
    refine ⟨h.same, ?_, ?_, h.nodup, h.taken, h.plain⟩
    · rw [List.map_append]
      exact hkeys
    · intro m hm
      rw [List.find?_append, h.first m hm, Option.some_or]
  | none =>
    rw [hfind] at hkeys
    refine h.registering ?_ hkeys
    intro m hm hkey
    exact absurd (decide_eq_true hkey) (List.find?_eq_none.1 hfind m hm)

/-- One call keeps what is known of a resolver. -/
theorem step (h : Reached resolution specifiers r) (call : ResolverCall) :
    Reached resolution (specifiers ++ call.specifier?.toList) (call.run r).2 := by
  cases call with
  | resolve specifier => exact h.resolving specifier
  | identFor specifier => exact h.resolving specifier
  | isExternal | actualPath => exact (List.append_nil specifiers).symm ▸ h
  | fresh base => exact (List.append_nil specifiers).symm ▸ h.taking (r.names.freshName base)
  | reserve name => exact (List.append_nil specifiers).symm ▸ h.taking name

/-- A run of calls resolves the specifiers of them. -/
theorem run (h : Reached resolution specifiers r) (calls : List ResolverCall) :
    Reached resolution (specifiers ++ calls.filterMap ResolverCall.specifier?) (r.after calls) := by
  induction calls generalizing specifiers r with
  | nil => exact (List.append_nil specifiers).symm ▸ h
  | cons call calls ih =>
    have hrest := ih (h.step call)
    have hcons : (call :: calls).filterMap ResolverCall.specifier? =
        call.specifier?.toList ++ calls.filterMap ResolverCall.specifier? := by
      rw [List.filterMap_cons]
      cases call.specifier? <;> rfl
    rw [hcons, ← List.append_assoc]
    exact hrest

end Reached

namespace ResolverCall

/-- One call registers a module at most, under an identifier that is free. -/
theorem registers (call : ResolverCall) (r : Resolver) :
    (call.run r).2.modules = r.modules ∨
      ∃ m, m.ident ∉ r.names.taken ∧ (call.run r).2.modules = r.modules ++ [m] := by
  have hresolve : ∀ specifier, (r.resolve specifier).2.modules = r.modules ∨
      ∃ m, m.ident ∉ r.names.taken ∧ (r.resolve specifier).2.modules = r.modules ++ [m] := by
    intro specifier
    unfold Resolver.resolve
    split
    · exact .inl rfl
    · exact .inr ⟨_, r.names.freshName_notMem _, rfl⟩
  cases call with
  | resolve specifier => exact hresolve specifier
  | identFor specifier => exact hresolve specifier
  | isExternal | actualPath | fresh | reserve => exact .inl rfl

end ResolverCall

namespace Resolver

/-- A run registers modules behind those that are there. -/
theorem modules_prefix_after (r : Resolver) (calls : List ResolverCall) :
    r.modules <+: (r.after calls).modules := by
  induction calls generalizing r with
  | nil => exact List.prefix_refl _
  | cons call calls ih =>
    refine List.IsPrefix.trans ?_ (ih (call.run r).2)
    rcases call.registers r with hsame | ⟨m, -, hmore⟩
    · exact hsame.symm ▸ List.prefix_refl _
    · exact hmore.symm ▸ List.prefix_append _ _

end Resolver

/-! ## Runs -/

/-- Without its repetitions a list has none: what comes last is left out if it has come before. -/
theorem nodup_eraseDups {α : Type} [DecidableEq α] (l : List α) : l.eraseDups.Nodup := by
  induction l using List.reverseRecOn with
  | nil => exact List.nodup_nil
  | append_singleton l a ih =>
    rw [List.eraseDups_append]
    by_cases ha : a ∈ l
    · simpa [List.removeAll, ha] using ih
    · have hlast : ([a].removeAll l).eraseDups = [a] := by
        simp [List.removeAll, ha, List.eraseDups_cons]
      rw [hlast, List.nodup_append]
      refine ⟨ih, List.nodup_singleton a, ?_⟩
      rintro x hx _ hy rfl
      rw [List.mem_singleton.1 hy, List.mem_eraseDups] at hx
      exact ha hx

/-- A resolver that has resolved nothing. -/
def Resolver.new (resolution : Resolution) (names : Names) : Resolver := ⟨resolution, names, []⟩

/-- The laws of a run of calls, from a resolver on that has resolved nothing. -/
structure ResolverRun (start : Resolver) (calls : List ResolverCall) : Prop where
  /-- A specifier is resolved to the module of its key, as it is registered in the end. -/
  entry : ∀ specifier answer,
    (ResolverCall.resolve specifier, answer) ∈ start.transcript calls →
      ∃ m ∈ (start.after calls).modules,
        m.key = start.resolution.key specifier ∧ answer = .entry m
  /-- And its identifier is given. -/
  ident : ∀ specifier answer,
    (ResolverCall.identFor specifier, answer) ∈ start.transcript calls →
      ∃ m ∈ (start.after calls).modules,
        m.key = start.resolution.key specifier ∧ answer = .ident m.ident
  /-- The same identifier stands for the same module. -/
  ident_iff : ∀ specifier specifier' call call' answer answer',
    (call, answer) ∈ start.transcript calls → (call', answer') ∈ start.transcript calls →
      call.specifier? = some specifier → call'.specifier? = some specifier' →
        (answer.ident? = answer'.ident? ↔
          start.resolution.isExternal specifier = start.resolution.isExternal specifier' ∧
            start.resolution.actualPath specifier = start.resolution.actualPath specifier')
  /-- What is registered stays as it is. -/
  kept : ∀ early late, calls = early ++ late →
    (start.after early).modules <+: (start.after calls).modules
  /-- The modules are those of the specifiers that were resolved, in the order of the first
  calls for them. -/
  registered : (start.after calls).modules.map ResolvedModule.key =
    ((calls.filterMap ResolverCall.specifier?).map start.resolution.key).eraseDups
  /-- No module is registered twice. -/
  once : ((start.after calls).modules.map ResolvedModule.key).Nodup
  /-- A module keeps the specifier that it was resolved by first. -/
  first : ∀ m ∈ (start.after calls).modules,
    (calls.filterMap ResolverCall.specifier?).find? (start.resolution.key · = m.key) =
      some m.specifier
  /-- Asking about a specifier changes nothing. -/
  asking : ∀ early call late specifier, calls = early ++ call :: late →
    call = .isExternal specifier ∨ call = .actualPath specifier →
      start.after (early ++ [call]) = start.after early
  /-- The identifier of a module is free until the call that registers it. -/
  free : ∀ early call late, calls = early ++ call :: late →
    ∀ m ∈ (start.after (early ++ [call])).modules, m ∉ (start.after early).modules →
      m.ident ∉ (start.after early).names.taken
  plain : ∀ m ∈ (start.after calls).modules, m.ident.IsPlainIdent

section

variable (resolution : Resolution) (names : Names) (calls : List ResolverCall)

theorem reached_after : Reached resolution (calls.filterMap ResolverCall.specifier?)
    ((Resolver.new resolution names).after calls) := by
  have hnew : Reached resolution [] (Resolver.new resolution names) :=
    ⟨rfl, rfl, by simp [Resolver.new], List.nodup_nil, by simp [Resolver.new],
      by simp [Resolver.new]⟩
  exact hnew.run calls

/-- The module that a specifier is resolved to in a run is registered in the end. -/
theorem resolve_after_spec {early late : List ResolverCall} {call : ResolverCall}
    {specifier : Text} (hcalls : calls = early ++ call :: late)
    (hcall : call.specifier? = some specifier) :
    ((((Resolver.new resolution names).after early).resolve specifier).1 ∈
        ((Resolver.new resolution names).after calls).modules) ∧
      (((Resolver.new resolution names).after early).resolve specifier).1.key =
        resolution.key specifier := by
  have hearly := reached_after resolution names early
  obtain ⟨-, -, hmem, hkey, -⟩ := Resolver.resolve_spec _ specifier _ hearly.keys
  rw [hearly.same] at hkey
  refine ⟨?_, hkey⟩
  rw [hcalls, Resolver.after_append]
  refine (Resolver.modules_prefix_after _ late).subset ?_
  cases call with
  | resolve | identFor =>
    cases hcall
    exact hmem
  | isExternal | actualPath | fresh | reserve => cases hcall

theorem ident?_spec {call : ResolverCall} {answer : ResolverAnswer} {specifier : Text}
    (h : (call, answer) ∈ (Resolver.new resolution names).transcript calls)
    (hcall : call.specifier? = some specifier) :
    ∃ m ∈ ((Resolver.new resolution names).after calls).modules,
      m.key = resolution.key specifier ∧ answer.ident? = some m.ident := by
  obtain ⟨early, late, hcalls, rfl⟩ := Resolver.exists_of_mem_transcript h
  obtain ⟨hmem, hkey⟩ := resolve_after_spec resolution names calls hcalls hcall
  refine ⟨_, hmem, hkey, ?_⟩
  cases call with
  | resolve | identFor =>
    cases hcall
    rfl
  | isExternal | actualPath | fresh | reserve => cases hcall

/-- Every run of calls keeps these laws, whatever is external, mapped and taken. -/
theorem resolverRun_new : ResolverRun (Resolver.new resolution names) calls := by
  have hend := reached_after resolution names calls
  have honce : (((Resolver.new resolution names).after calls).modules.map
      ResolvedModule.key).Nodup := by
    rw [hend.keys]
    exact nodup_eraseDups _
  constructor
  case entry =>
    intro specifier answer h
    obtain ⟨early, late, hcalls, rfl⟩ := Resolver.exists_of_mem_transcript h
    obtain ⟨hmem, hkey⟩ := resolve_after_spec resolution names calls hcalls rfl
    exact ⟨_, hmem, hkey, rfl⟩
  case ident =>
    intro specifier answer h
    obtain ⟨early, late, hcalls, rfl⟩ := Resolver.exists_of_mem_transcript h
    obtain ⟨hmem, hkey⟩ := resolve_after_spec resolution names calls hcalls rfl
    exact ⟨_, hmem, hkey, rfl⟩
  case ident_iff =>
    intro specifier specifier' call call' answer answer' h h' hcall hcall'
    obtain ⟨m, hm, hkey, hident⟩ := ident?_spec resolution names calls h hcall
    obtain ⟨m', hm', hkey', hident'⟩ := ident?_spec resolution names calls h' hcall'
    have hkeys : resolution.key specifier = resolution.key specifier' ↔
        resolution.isExternal specifier = resolution.isExternal specifier' ∧
          resolution.actualPath specifier = resolution.actualPath specifier' :=
      ModuleKey.mk.injEq .. ▸ Iff.rfl
    rw [hident, hident', Option.some_inj]
    refine Iff.trans ?_ hkeys
    rw [← hkey, ← hkey']
    constructor
    · intro hsame
      rw [List.inj_on_of_nodup_map hend.nodup hm hm' hsame]
    · intro hsame
      rw [List.inj_on_of_nodup_map honce hm hm' hsame]
  case kept =>
    rintro early late rfl
    rw [Resolver.after_append]
    exact Resolver.modules_prefix_after _ late
  case registered => exact hend.keys
  case once => exact honce
  case first => exact hend.first
  case asking =>
    intro early call late specifier _ hcall
    rw [Resolver.after_append]
    rcases hcall with rfl | rfl <;> rfl
  case free =>
    intro early call late _ m hm hnew
    rw [Resolver.after_append] at hm
    rcases call.registers ((Resolver.new resolution names).after early) with hsame | ⟨n, hn, hmore⟩
    · exact absurd (hsame ▸ hm) hnew
    · replace hm : m ∈ (call.run ((Resolver.new resolution names).after early)).2.modules := hm
      rw [hmore] at hm
      rcases List.mem_append.1 hm with hold | hlast
      · exact absurd hold hnew
      · rw [List.mem_singleton.1 hlast]
        exact hn
  case plain => exact hend.plain

end

end ModuleLowering
