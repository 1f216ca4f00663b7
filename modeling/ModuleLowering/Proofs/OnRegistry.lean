import ModuleLowering.Proofs.Records
import ModuleLowering.Proofs.Stages

/-!
# Lowering on the registry

On the registry everything that a module takes from others is read from registered modules. What is
taken, in which order and under which names can be read off the module alone, and so can the modules
that are registered; only the new names are the allocator's.
-/

set_option autoImplicit false

namespace ModuleLowering

/-- A statement binds what an item takes by reading it from the registered module that its specifier
stands for. -/
inductive ReadFrom (resolution : Resolution) (registered : List (ModuleKey × Text))
    (n : NamedItem) (s : Node) : Prop where
  | intro (member : Member) (specifier ident : Text)
      (htaken : n.item.taken? = some (member, .text specifier))
      (hregistered : (resolution.key specifier, ident) ∈ registered)
      (hs : s = Node.constant n.name (some (member.read ident)))

/-- What a module takes from others on the registry. Each statement has its items in `named`, with
the names that they go by; `registered` are the modules with their identifiers, each once and in
the order of the first items that need them; `bindings` are the statements that bind what the items
take. -/
structure OnRegistry (config : Config) (program : Node) (named : List (List NamedItem))
    (registered : List (ModuleKey × Text)) (bindings : List Node) : Prop where
  items : program.statements.map Node.items = named.map (List.map NamedItem.item)
  supported : ∀ s ∈ program.statements, s.Supported
  own : ∀ n ∈ named.flatten, ∀ x, n.item.ownName? = some x → n.name = x
  new : ∀ x ∈ named.flatten.filterMap NamedItem.newName? ++ registered.map Prod.snd,
    x ∉ program.names
  nodup : (named.flatten.filterMap NamedItem.newName? ++ registered.map Prod.snd).Nodup
  keys : registered.map Prod.fst =
    (named.flatten.filterMap fun n => n.item.moduleKey? config.resolution).eraseDups
  bindings : List.Forall₂ (ReadFrom config.resolution registered)
    (named.flatten.filter fun n => n.item.isTaken) bindings

namespace Finding

/-- A record asks for the module that the item of its finding takes something from. -/
theorem moduleKey?_eq (f : Finding) (resolution : Resolution) :
    f.importRecord?.bind (ImportRecord.key? true resolution) =
      f.named.item.moduleKey? resolution := by
  show _ = f.item.moduleKey? resolution
  unfold ModuleItem.moduleKey?
  rw [taken?_eq]
  cases f.importRecord? with
  | none => rfl
  | some r =>
    simp only [Option.bind_some, Option.map_some]
    unfold ImportRecord.key?
    cases r.source <;> rfl

/-- The records of findings are those of the items that take something. -/
theorem forall₂_named {R : ImportRecord → Node → Prop} {S : NamedItem → Node → Prop}
    (hRS : ∀ (f : Finding) r s, f.importRecord? = some r → R r s → S f.named s) {fs : List Finding}
    {bindings : List Node} (h : List.Forall₂ R (fs.filterMap importRecord?) bindings) :
    List.Forall₂ S ((fs.map named).filter fun n => n.item.isTaken) bindings := by
  induction fs generalizing bindings with
  | nil =>
    cases h
    exact .nil
  | cons f fs ih =>
    have htaken : f.named.item.isTaken = f.importRecord?.isSome := by
      show f.item.taken?.isSome = _
      rw [taken?_eq, Option.isSome_map]
    rw [List.map_cons, List.filter_cons, htaken]
    rw [List.filterMap_cons] at h
    cases hrecord : f.importRecord? with
    | none =>
      rw [hrecord] at h
      exact ih h
    | some r =>
      rw [hrecord] at h
      cases h with
      | cons hr hrest => exact .cons (hRS f r _ hrecord hr) (ih hrest)

end Finding

namespace Lowering

namespace Stages

variable {config : Config} {program : Node} {body : List Node} {found : List (List Finding)}
  {bindings : List Node}

theorem statements_eq (h : Stages config program body found bindings) :
    program.statements = body := by
  unfold Node.statements
  rw [h.form]

theorem flatten_named (found : List (List Finding)) :
    (found.map (List.map Finding.named)).flatten = found.flatten.map Finding.named :=
  List.map_flatten.symm

/-- The findings of a module on the registry are what it says and what is read for it. -/
theorem onRegistry (h : Stages config program body found bindings)
    (hmode : config.runtimeModule = true) :
    OnRegistry config program (found.map (List.map Finding.named))
      ((resolver config program).modules.map fun m => (m.key, m.ident)) bindings := by
  have hstatements := h.statements_eq
  have hidents : ((resolver config program).modules.map fun m => (m.key, m.ident)).map Prod.snd =
      (resolver config program).modules.map ResolvedModule.ident := List.map_map
  have hnames := h.collected.trans h.registered
  refine ⟨?_, ?_, ?_, ?_, ?_, ?_, ?_⟩
  · rw [hstatements, List.map_map]
    have hitems := h.items
    rw [hmode] at hitems
    rw [← List.map_congr_left fun s _ => Node.collectedItems_true s, hitems]
    refine List.map_congr_left fun fs _ => ?_
    show _ = (fs.map Finding.named).map NamedItem.item
    rw [List.map_map]
    rfl
  · rw [hstatements]
    intro s hs
    exact (h.complete s hs (hmode ▸ Node.isInspected_true s)).toSupported
  · rw [flatten_named]
    intro n hn x hx
    obtain ⟨f, -, rfl⟩ := List.mem_map.1 hn
    exact Finding.name_eq_of_ownName? hx
  · rw [flatten_named, hidents, List.filterMap_map]
    exact hnames.notMem
  · rw [flatten_named, hidents, List.filterMap_map]
    exact hnames.nodup
  · have hkeys := h.keys
    unfold Resolver.HasResolved at hkeys
    rw [hmode, List.filterMap_filterMap] at hkeys
    rw [flatten_named, List.filterMap_map, List.map_map]
    refine Eq.trans hkeys (congrArg List.eraseDups ?_)
    exact List.filterMap_congr fun f _ => f.moduleKey?_eq config.resolution
  · rw [flatten_named]
    refine Finding.forall₂_named ?_ h.bound
    intro f r s hrecord hbound
    cases hbound with
    | imported hnot => exact absurd (hmode.symm.trans hnot) Bool.noConfusion
    | read specifier m hsource hm hkey hs =>
      refine .intro r.member specifier m.ident ?_ ?_ ?_
      · show f.item.taken? = _
        rw [Finding.taken?_eq, hrecord, Option.map_some, hsource]
      · rw [← h.resolution, ← hkey]
        exact List.mem_map.2 ⟨m, hm, rfl⟩
      · rw [hs, r.value_eq_read, Finding.importRecord?_name hrecord]
        rfl

end Stages

end Lowering

end ModuleLowering
