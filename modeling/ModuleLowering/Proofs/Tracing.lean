import ModuleLowering.Proofs.Redirecting

/-!
# What walks find in a changed module

A walk through the changed module meets the changed nodes and what has been put in. What a test
finds there is told node by node: every test of interest finds as much at a changed node as at the
node that it was, and nothing in what has been put in apart from that.
-/

set_option autoImplicit false

namespace ModuleLowering

open Node

namespace Node

variable {d : Redirection} {n : Node}

/-! ## Walks through the changed tree -/

theorem walk_slot (d : Redirection) (name : Text) :
    (d.slot name).walk = [d.slot name, (identifier d.boundary).memberNamed "exports",
      identifier d.boundary, identifier "exports", identifier name] := rfl

theorem walk_require (loc : Option Position) (path : Text) :
    (mk loc (Registry.require path).form).walk =
      [mk loc (Registry.require path).form, Registry.part ["require"], Registry.part [],
        identifier "global", identifier "__modules", identifier "require", textLiteral path] := rfl

theorem walk_boundary (name moduleId : Text) :
    (Registry.boundary name moduleId).walk =
      [Registry.boundary name moduleId,
        made (.variableDeclarator (some (identifier name))
          (some (Registry.call "cjs" [textLiteral moduleId]))),
        identifier name, Registry.call "cjs" [textLiteral moduleId], Registry.part ["cjs"],
        Registry.part [], identifier "global", identifier "__modules", identifier "cjs",
        textLiteral moduleId] := rfl

/-- What the test `t` finds in a changed tree is what the test `u` finds in the tree. It finds
nothing in what is put in apart from that. -/
structure Traces {α : Type} (d : Redirection) (t u : Node → Option α) : Prop where
  kept : ∀ n, d.redirect? n = none → t (n.partsRedirected d) = u n
  published : ∀ n name, d.redirect? n = some (.published name) → t (n.redirected d) = u n
  required : ∀ n specifier path, d.redirect? n = some (.required specifier path) →
    (n.redirected d).walk.filterMap t = n.walk.filterMap u
  mirror : ∀ name value, t (d.mirror name value) = none
  slot : ∀ name, (d.slot name).walk.filterMap t = []
  object : ∀ moduleId, (Registry.boundary d.boundary moduleId).walk.filterMap t = []
  module : ∀ (n : Node) body, t (n.withForm (.program body)) = none

/-- What such a test finds in a changed tree, the other one finds in the tree, in the same order. -/
theorem Traces.filterMap_walk {α : Type} {t u : Node → Option α} (h : Traces d t u) (n : Node) :
    (n.redirected d).walk.filterMap t = n.walk.filterMap u := by
  induction n using induction_children with
  | step n ih =>
    cases hn : d.redirect? n with
    | none =>
      have hchildren : (n.partsRedirected d).children = n.children.map (redirected d) :=
        parts_foldForm d.node n.form
      rw [redirected_of_none hn, walk_eq_cons, walk_eq_cons n, hchildren, List.filterMap_cons,
        List.filterMap_cons, h.kept n hn, List.flatMap_map, List.filterMap_flatMap,
        List.filterMap_flatMap, List.flatMap_congr ih]
    | some r =>
      cases r with
      | required specifier path => exact h.required n specifier path hn
      | published name =>
        obtain ⟨left, right, hform, -⟩ := form_of_assignedSlot? (assignedSlot?_of_published hn)
        have hchildren : n.children = left :: right.toList := by
          simp [children, hform, Form.parts, Form.slots, Slot.parts]
        have hparts : (n.redirected d).children =
            [left.redirected d, d.mirror name (right.map (redirected d))] := by
          rw [redirected_of_published hn hform]
          rfl
        have hmirror : (d.mirror name (right.map (redirected d))).children =
            d.slot name :: (right.map (redirected d)).toList := by
          simp [children, Redirection.mirror, made, form, Form.parts, Form.slots, Slot.parts]
        have hright : ((right.map (redirected d)).toList.flatMap walk).filterMap t =
            (right.toList.flatMap walk).filterMap u := by
          cases right with
          | none => rfl
          | some e => simpa using ih e (by simp [hchildren])
        rw [walk_eq_cons, walk_eq_cons n, hparts, hchildren, List.filterMap_cons,
          List.filterMap_cons, h.published n name hn]
        simp [walk_eq_cons (d.mirror _ _), hmirror, h.mirror, h.slot, ih left (by simp [hchildren]),
          hright]

/-- A call that requires a module by a literal has no other nodes below it than a name and a text.
-/
theorem walk_of_requiredLiteral? {specifier : Text} (h : n.requiredLiteral? = some specifier) :
    ∃ loc loc' raw, n.children = [mk loc (.identifier "require"),
        mk loc' (.literal (.text specifier) raw)] ∧
      n.walk = n :: n.children := by
  obtain ⟨⟨loc, callee⟩, ⟨loc', argument⟩, hform, hname, htext⟩ := form_of_requiredLiteral? h
  cases callee <;> cases hname
  unfold text? at htext
  split at htext
  case h_1 raw hargument =>
    cases htext
    cases hargument
    have hchildren : n.children =
        [mk loc (.identifier "require"), mk loc' (.literal (.text specifier) raw)] := by
      simp [children, hform, Form.parts, Form.slots, Slot.parts]
    refine ⟨loc, loc', raw, hchildren, ?_⟩
    rw [walk_eq_cons, hchildren]
    rfl
  case h_2 => cases htext

/-! ## Export slots -/

/-- The assignment that publishes sets no export slot itself. -/
theorem assignedSlot?_mirror (h : d.boundary ≠ "module") (name : Text) (value : Option Node) :
    (d.mirror name value).assignedSlot? = none := by
  show (d.slot name).exportSlot? = none
  have hobject : (identifier d.boundary).isNamed "module" = false := by
    simpa [isNamed, name?, identifier, made, form] using h
  show (if (identifier d.boundary).isNamed "module" && _ then some name else none) = none
  rw [hobject]
  rfl

/-- Calls that require modules hold no assignments to export slots, nor do those of the registry. -/
theorem slots_of_required {n : Node} {specifier path : Text}
    (h : d.redirect? n = some (.required specifier path)) :
    (n.redirected d).walk.filterMap assignedSlot? = [] ∧ n.walk.filterMap assignedSlot? = [] := by
  obtain ⟨-, hrequired, -⟩ := requiredLiteral?_of_required h
  obtain ⟨_, _, hform, -⟩ := form_of_requiredLiteral? hrequired
  obtain ⟨_, _, _, hchildren, hwalk⟩ := walk_of_requiredLiteral? hrequired
  have hslot : n.assignedSlot? = none := by
    unfold assignedSlot?
    rw [hform]
  constructor
  · rw [redirected_of_required h, walk_require]
    rfl
  · rw [hwalk, List.filterMap_cons, hslot, hchildren]
    rfl

/-- The assignments to export slots are the same ones. -/
theorem traces_assignedSlot? (h : d.boundary ≠ "module") :
    Traces d assignedSlot? assignedSlot? where
  kept n _ := assignedSlot?_partsRedirected d n
  published n name hn := by
    obtain ⟨_, _, -, hbefore, hafter⟩ := form_of_published hn
    rw [hbefore, hafter]
  required n specifier path hn := by
    obtain ⟨hafter, hbefore⟩ := slots_of_required hn
    rw [hbefore, hafter]
  mirror := assignedSlot?_mirror h
  slot name := by
    rw [walk_slot]
    rfl
  object moduleId := by
    rw [walk_boundary]
    rfl
  module _ _ := rfl

/-- An assignment to an export slot, if it is one, goes by way of the object. -/
def Mirrored (d : Redirection) (n : Node) : Prop :=
  ∀ name, n.assignedSlot? = some name →
    ∃ left value, n.form = .assignmentExpression "=" (some left) (some (d.mirror name value))

open Classical in
/-- No assignment to an export slot does without the object. -/
theorem traces_not_mirrored (h : d.boundary ≠ "module") :
    Traces d (fun n => if n.Mirrored d then none else n.assignedSlot?) fun _ => none := by
  have hslots := traces_assignedSlot? h
  -- A node that assigns to no slot is not found.
  have hfew : ∀ ns : List Node, ns.filterMap assignedSlot? = [] →
      (ns.filterMap fun n => if n.Mirrored d then none else n.assignedSlot?) = [] := by
    intro ns hns
    rw [List.filterMap_eq_nil_iff] at hns ⊢
    intro n hn
    simp [hns n hn]
  refine ⟨?_, ?_, ?_, ?_, fun name => hfew _ (hslots.slot name),
    fun moduleId => hfew _ (hslots.object moduleId), ?_⟩
  · intro n hn
    have hslot : (n.partsRedirected d).assignedSlot? = none := by
      rw [assignedSlot?_partsRedirected]
      exact (tests_of_redirect?_eq_none hn).1
    simp [hslot]
  · intro n name hn
    obtain ⟨left, value, hform, -, hafter⟩ := form_of_published hn
    have hmirrored : (n.redirected d).Mirrored d := by
      intro name' hname'
      cases hafter.symm.trans hname'
      exact ⟨left, value, hform⟩
    simp [hmirrored]
  · intro n specifier path hn
    rw [hfew _ (slots_of_required hn).1]
    simp
  · intro name value
    simp [assignedSlot?_mirror h]
  · intro n body
    simp [hslots.module n body]

/-- On the registry no call requires a module by a literal any more. -/
theorem traces_requiredLiteral? (h : d.onRegistry = true) :
    Traces d requiredLiteral? fun _ => none where
  kept n hn := by
    rw [requiredLiteral?_partsRedirected]
    exact (tests_of_redirect?_eq_none hn).2 h
  published n name hn := by
    obtain ⟨_, _, hform, -⟩ := form_of_published hn
    unfold requiredLiteral?
    rw [hform]
  required n specifier path hn := by
    rw [redirected_of_required hn, walk_require, List.filterMap_none]
    rfl
  mirror _ _ := rfl
  slot name := by
    rw [walk_slot]
    rfl
  object moduleId := by
    rw [walk_boundary]
    rfl
  module _ _ := rfl

/-- On the registry every module that was required by a literal comes from there. -/
theorem traces_registryPath? (h : d.onRegistry = true) :
    Traces d registryPath? fun n =>
      (n.requiredLiteral?.map d.resolution.actualPath).or n.registryPath? where
  kept n hn := by
    rw [registryPath?_partsRedirected, (tests_of_redirect?_eq_none hn).2 h]
    rfl
  published n name hn := by
    obtain ⟨_, _, hform, hslot, -⟩ := form_of_published hn
    obtain ⟨_, _, hbefore, -⟩ := form_of_assignedSlot? hslot
    unfold registryPath? requiredLiteral?
    rw [hform, hbefore]
    rfl
  required n specifier path hn := by
    obtain ⟨-, hrequired, rfl⟩ := requiredLiteral?_of_required hn
    obtain ⟨_, _, _, hchildren, hwalk⟩ := walk_of_requiredLiteral? hrequired
    have hafter : (n.redirected d).walk.filterMap registryPath? =
        [d.resolution.actualPath specifier] := by
      rw [redirected_of_required hn, walk_require]
      rfl
    rw [hafter, hwalk, List.filterMap_cons, hrequired, hchildren]
    rfl
  mirror _ _ := rfl
  slot name := by
    rw [walk_slot]
    rfl
  object moduleId := by
    rw [walk_boundary]
    rfl
  module _ _ := rfl

/-- Elsewhere every call that requires a module by a literal stays as it is. -/
theorem traces_requires (h : d.onRegistry = false) :
    Traces d (Option.guard fun n => n.requiredLiteral?.isSome)
      (Option.guard fun n => n.requiredLiteral?.isSome) := by
  have hleaf : ∀ n : Node, n.assignedSlot? = none → n.requiredLiteral? = none →
      n.partsRedirected d = n → n.redirected d = n := by
    intro n hslot hrequired hparts
    rw [redirected_of_none (redirect?_eq_none hslot hrequired), hparts]
  refine ⟨?_, ?_, ?_, fun name value => rfl, ?_, ?_, fun n body => rfl⟩
  · intro n hn
    cases hrequired : n.requiredLiteral? with
    | none => simp [Option.guard, hrequired]
    | some specifier =>
      obtain ⟨loc, loc', raw, hchildren, -⟩ := walk_of_requiredLiteral? hrequired
      have hparts : n.partsRedirected d = n := by
        rw [partsRedirected, foldForm_eq_self, withForm_self]
        intro c hc
        rw [show n.form.parts = _ from hchildren] at hc
        rcases List.mem_cons.1 hc with rfl | hc
        · exact hleaf _ rfl rfl rfl
        · rw [List.mem_singleton.1 hc]
          exact hleaf _ rfl rfl rfl
      rw [hparts]
  · intro n name hn
    obtain ⟨_, _, hform, hslot, -⟩ := form_of_published hn
    obtain ⟨_, _, hbefore, -⟩ := form_of_assignedSlot? hslot
    have hnone : n.requiredLiteral? = none ∧ (n.redirected d).requiredLiteral? = none := by
      unfold requiredLiteral?
      rw [hform, hbefore]
      exact ⟨rfl, rfl⟩
    simp [Option.guard, hnone]
  · intro n specifier path hn
    have hmode := (requiredLiteral?_of_required hn).1
    exact absurd (hmode.symm.trans h) (by simp)
  · intro name
    rw [walk_slot]
    rfl
  · intro moduleId
    rw [walk_boundary]
    rfl

end Node

end ModuleLowering
