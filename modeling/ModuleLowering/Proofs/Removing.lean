import ModuleLowering.Proofs.Outcomes

/-!
# Cutting nodes out of a tree

A pass that removes the nodes of some kinds, without a look at their parts, cuts their subtrees out
of the tree and leaves the rest alone. In the walk of the tree every outermost node of these kinds
is gone with all that is below it; only a statement in a place for a single part leaves an empty
statement there.
-/

set_option autoImplicit false

namespace ModuleLowering

/-! ## Slots -/

namespace Slot

variable {α β : Type}

/-- A slot with its parts replaced one by one. -/
def map (f : α → β) : Slot α → Slot β
  | one p => one (p.map f)
  | many items => many (items.map f)
  | sparse items => sparse (items.map (Option.map f))

theorem parts_map (f : α → β) (slot : Slot α) : (slot.map f).parts = slot.parts.map f := by
  cases slot with
  | one p => cases p <;> rfl
  | many items => rfl
  | sparse items => exact Node.filterMap_id_map_map f items

theorem isSingle_map (f : α → β) (slot : Slot α) : (slot.map f).isSingle = slot.isSingle := by
  cases slot <;> rfl

end Slot

namespace Node

theorem slots_foldForm {β : Type} (f : Node → Form β → β) (form : Form Node) :
    (foldForm f form).slots = form.slots.map (Slot.map (fold f)) := by
  cases form <;>
    simp only [foldForm, foldPart_eq_map, foldList_eq_map, foldSparse_eq_map, Form.slots, Slot.map,
      List.map_cons, List.map_nil]

/-! ## Places -/

/-- A place of a tree: the nodes above it, from the nearest on, the node there, and whether it is
the part of a slot for a single one. -/
structure Spot where
  above : List Node
  node : Node
  single : Bool

/-- The places of a tree below some nodes, in the order of a walk. -/
def spotsBelow (n : Node) : Bool → List Node → List Spot :=
  n.fold fun n (form : Form (Bool → List Node → List Spot)) single above =>
    ⟨above, n, single⟩ :: form.slots.flatMap fun slot =>
      slot.parts.flatMap fun spots => spots slot.isSingle (n :: above)

/-- The places of a tree, in the order of a walk. -/
def spots (n : Node) : List Spot := n.spotsBelow false []

theorem spotsBelow_eq (n : Node) (single : Bool) (above : List Node) :
    n.spotsBelow single above = ⟨above, n, single⟩ :: n.form.slots.flatMap fun slot =>
      slot.parts.flatMap fun c => c.spotsBelow slot.isSingle (n :: above) := by
  have hslot (slot : Slot Node) : ((slot.map spotsBelow).parts.flatMap fun spots =>
      spots (slot.map spotsBelow).isSingle (n :: above)) =
      slot.parts.flatMap fun c => c.spotsBelow slot.isSingle (n :: above) := by
    rw [Slot.parts_map, Slot.isSingle_map, List.flatMap_map]
  conv => lhs; rw [spotsBelow, fold_eq, slots_foldForm]
  rw [List.flatMap_map]
  exact congrArg _ (congrArg (List.flatMap · n.form.slots) (funext hslot))

/-- A walk goes through the places. -/
theorem map_node_spotsBelow (n : Node) (single : Bool) (above : List Node) :
    (n.spotsBelow single above).map Spot.node = n.walk := by
  induction n using induction_children generalizing single above with
  | step n ih =>
    rw [spotsBelow_eq, walk_eq_cons, List.map_cons, children, Form.parts, List.flatMap_assoc,
      List.map_flatMap]
    congr 1
    refine List.flatMap_congr fun slot hslot => ?_
    rw [List.map_flatMap]
    exact List.flatMap_congr fun c hc =>
      ih c (List.mem_flatMap.2 ⟨slot, hslot, hc⟩) slot.isSingle (n :: above)

/-! ## Cutting -/

/-- A node without its parts: its place, its kind and its own data. -/
def label (n : Node) : Option Position × Form Unit := (n.loc, n.form.stripped)

/-- Removes the nodes of some kinds. -/
def removing (kinds : String → Bool) (n : Node) (descend : Id Outcome) : Id Outcome :=
  if kinds n.typeName then Outcome.removed else descend

/-- What becomes of a tree when the nodes of some kinds are removed. -/
def cut (kinds : String → Bool) (n : Node) : Outcome := Id.run (n.rewriteM (removing kinds))

/-- What is left at a place when the nodes of some kinds are cut out. -/
def Spot.left? (kinds : String → Bool) (s : Spot) : Option (Option Position × Form Unit) :=
  if s.above.any fun a => kinds a.typeName then none
  else if kinds s.node.typeName then
    if s.single && s.node.isStatement then some (s.node.loc, .emptyStatement) else none
  else some s.node.label

variable {kinds : String → Bool}

theorem cut_eq (kinds : String → Bool) (n : Node) :
    n.cut kinds = if kinds n.typeName then .removed else n.descended (cut kinds) := by
  have hdescend : Id.run (descend n (n.partPasses (removing kinds))) = n.descended (cut kinds) :=
    gives_descend Giving.plain fun c _ => rfl
  rw [cut, rewriteM_eq_rule, removing]
  split
  · rfl
  · exact hdescend

/-- The nodes of these kinds are removed, and no others. -/
theorem cut_eq_removed_iff {n : Node} : n.cut kinds = .removed ↔ kinds n.typeName = true := by
  rw [cut_eq]
  split
  case isTrue h => exact ⟨fun _ => h, fun _ => rfl⟩
  case isFalse h => exact ⟨fun hremoved => absurd hremoved (descended_ne_removed _ n), fun hk => absurd hk h⟩

/-- What stands in a slot of a tree after the cut. -/
def standsIn (kinds : String → Bool) (single : Bool) (c : Node) : Option Node :=
  if single then (c.cut kinds).part? c else (c.cut kinds).item? c

/-- Another node stays, and its parts are cut. -/
theorem standsIn_of_kept {n : Node} (h : kinds n.typeName = false) (single : Bool) :
    n.standsIn kinds single =
      some (n.editParts (standsIn kinds true) (standsIn kinds false)) := by
  have hitem : (n.cut kinds).item? n =
      some (n.editParts (standsIn kinds true) (standsIn kinds false)) := by
    rw [cut_eq, h]
    exact item?_descended (cut kinds) n
  cases single with
  | true => exact part?_of_item? hitem
  | false => exact hitem

theorem label_editParts (part item : Node → Option Node) (n : Node) :
    (n.editParts part item).label = n.label :=
  congrArg (Prod.mk n.loc) (Form.stripped_edit part item n.form)

/-- Nothing is left below a node that is removed. -/
theorem filterMap_spotsBelow_removed {n : Node} {single : Bool} {above : List Node}
    (h : (above.any fun a => kinds a.typeName) = true) :
    (n.spotsBelow single above).filterMap (Spot.left? kinds) = [] := by
  induction n using induction_children generalizing single above with
  | step n ih =>
    rw [spotsBelow_eq, List.filterMap_cons, Spot.left?, if_pos h, List.filterMap_flatMap]
    refine List.flatMap_eq_nil_iff.2 fun slot hslot => ?_
    rw [List.filterMap_flatMap]
    refine List.flatMap_eq_nil_iff.2 fun c hc => ?_
    refine ih c (List.mem_flatMap.2 ⟨slot, hslot, hc⟩) ?_
    rw [List.any_cons, h, Bool.or_true]

/-- The parts of a node that stays, after the cut. -/
theorem children_editParts_standsIn (n : Node) :
    (n.editParts (standsIn kinds true) (standsIn kinds false)).children =
      n.form.slots.flatMap fun slot => slot.parts.filterMap (standsIn kinds slot.isSingle) := by
  have hpick (b : Bool) :
      (if b then standsIn kinds true else standsIn kinds false) = standsIn kinds b := by
    cases b <;> rfl
  show (n.form.edit _ _).parts = _
  rw [Form.parts, Form.slots_edit, List.flatMap_map]
  refine List.flatMap_congr fun slot _ => ?_
  rw [Slot.parts_edit, hpick]

/-- What is left at the places of a tree below nodes that stay is what a walk meets after the cut.
-/
theorem filterMap_spotsBelow {n : Node} {single : Bool} {above : List Node}
    (h : (above.any fun a => kinds a.typeName) = false) :
    (n.spotsBelow single above).filterMap (Spot.left? kinds) =
      ((n.standsIn kinds single).toList.flatMap walk).map label := by
  induction n using induction_children generalizing single above with
  | step n ih =>
    rw [spotsBelow_eq, List.filterMap_cons, Spot.left?, if_neg (by rw [h]; nofun),
      List.filterMap_flatMap]
    cases hkind : kinds n.typeName with
    | true =>
      have hbelow : (n.form.slots.flatMap fun slot =>
          (slot.parts.flatMap fun c => c.spotsBelow slot.isSingle (n :: above)).filterMap
            (Spot.left? kinds)) = [] := by
        refine List.flatMap_eq_nil_iff.2 fun slot _ => ?_
        rw [List.filterMap_flatMap]
        refine List.flatMap_eq_nil_iff.2 fun c _ => filterMap_spotsBelow_removed ?_
        rw [List.any_cons, hkind, Bool.true_or]
      rw [hbelow, standsIn, cut_eq_removed_iff.2 hkind]
      cases single with
      | false => rfl
      | true =>
        cases hstatement : n.isStatement with
        | false => simp [Outcome.part?, hstatement]
        | true =>
          have hempty : (mk n.loc .emptyStatement).walk = [mk n.loc .emptyStatement] := by
            rw [walk_eq_cons]
            rfl
          simp only [Outcome.part?, hstatement, if_true, Bool.true_and, Option.toList_some,
            List.flatMap_singleton, hempty]
          rfl
    | false =>
      have hbelow : (n.form.slots.flatMap fun slot =>
          (slot.parts.flatMap fun c => c.spotsBelow slot.isSingle (n :: above)).filterMap
            (Spot.left? kinds)) =
          ((n.form.slots.flatMap fun slot =>
            slot.parts.filterMap (standsIn kinds slot.isSingle)).flatMap walk).map label := by
        rw [List.flatMap_assoc, List.map_flatMap]
        refine List.flatMap_congr fun slot hslot => ?_
        rw [List.filterMap_flatMap, List.filterMap_eq_flatMap_toList, List.flatMap_assoc,
          List.map_flatMap]
        refine List.flatMap_congr fun c hc => ih c (List.mem_flatMap.2 ⟨slot, hslot, hc⟩) ?_
        rw [List.any_cons, hkind, h]
        rfl
      rw [standsIn_of_kept hkind, Option.toList_some, List.flatMap_singleton, walk_eq_cons,
        List.map_cons, label_editParts, children_editParts_standsIn, hbelow]
      rfl

/-- A tree is left as it is if it has no node of these kinds, and only then. -/
theorem cut_eq_same_iff {n : Node} :
    n.cut kinds = .same ↔ ∀ m ∈ n.walk, kinds m.typeName = false := by
  induction n using induction_children with
  | step n ih =>
    rw [cut_eq, walk_eq_cons, List.forall_mem_cons]
    cases hkind : kinds n.typeName with
    | true => exact ⟨nofun, nofun⟩
    | false =>
      rw [if_neg nofun, descended_eq_same_iff, List.forall_mem_flatMap]
      refine ⟨fun h => ⟨rfl, fun c hc => (ih c hc).1 (h c hc)⟩, fun h c hc => ?_⟩
      exact (ih c hc).2 (h.2 c hc)

/-- What it means that `after` is the tree `n` with the nodes of some kinds cut out. -/
structure CleanCut (kinds : String → Bool) (n after : Node) : Prop where
  /-- A walk meets what is left at the places of the tree, in the same order. -/
  walk : after.walk.map label = n.spots.filterMap (Spot.left? kinds)
  /-- A node that is not removed stays what it is, and in each of its slots stands in order what is
  left of the parts, with the same holes. -/
  slots : ∀ m ∈ n.walk, kinds m.typeName = false → ∃ m', (m.cut kinds).item? m = some m' ∧
    m'.label = m.label ∧ m'.form.slots = m.form.slots.map
      (Slot.edit (fun c => (c.cut kinds).part? c) fun c => (c.cut kinds).item? c)
  /-- The nodes of these kinds are removed, and no others. -/
  removed : ∀ m ∈ n.walk, m.cut kinds = .removed ↔ kinds m.typeName = true
  /-- The tree is the very same if there is no such node in it, and only then. -/
  same : n.cut kinds = .same ↔ ∀ m ∈ n.walk, kinds m.typeName = false

/-- Removing the nodes of some kinds from a tree that is of another kind cuts them out. -/
theorem cut_clean {n : Node} (h : kinds n.typeName = false) :
    n.spots.map Spot.node = n.walk ∧
      ∃ after, (n.cut kinds).item? n = some after ∧ CleanCut kinds n after := by
  refine ⟨map_node_spotsBelow n false [], _, standsIn_of_kept h false, ?_, ?_, ?_, ?_⟩
  · rw [spots, filterMap_spotsBelow rfl, standsIn_of_kept h false, Option.toList_some,
      List.flatMap_singleton]
  · intro m _ hkind
    exact ⟨_, standsIn_of_kept hkind false, label_editParts _ _ m, Form.slots_edit _ _ m.form⟩
  · exact fun m _ => cut_eq_removed_iff
  · exact cut_eq_same_iff

/-- A module with a statement in a single place and an array with a hole, cut at `throw` and at what
is spread. -/
theorem cut_clean_throw_and_spread :
    let kinds (kind : String) : Bool := kind = "ThrowStatement" ∨ kind = "SpreadElement"
    let x := made (.identifier "x")
    let array := made (.arrayExpression [some (made (.spreadElement (some x))), none, some x])
    let n := made (.program [
      made (.ifStatement (some x) (some (made (.throwStatement (some array)))) none),
      made (.throwStatement (some x)), made (.expressionStatement (some array))])
    kinds n.typeName = false ∧
      ∃ after, (n.cut kinds).item? n = some after ∧ CleanCut kinds n after ∧
        after.walk.map typeName = ["Program", "IfStatement", "Identifier", "EmptyStatement",
          "ExpressionStatement", "ArrayExpression", "Identifier"] := by
  intro kinds x array n
  have hkind : kinds n.typeName = false := by decide
  obtain ⟨-, after, hafter, hclean⟩ := cut_clean hkind
  refine ⟨hkind, after, hafter, hclean, ?_⟩
  have hwalk : ((n.cut kinds).item? n).map (fun m => m.walk.map typeName) =
      some ["Program", "IfStatement", "Identifier", "EmptyStatement", "ExpressionStatement",
        "ArrayExpression", "Identifier"] := by
    decide
  rw [hafter] at hwalk
  exact Option.some.inj hwalk

end Node

end ModuleLowering
