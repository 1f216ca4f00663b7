import Mathlib.Data.List.Basic
import Mathlib.Tactic.CasesM
import ModuleLowering.Proofs.Recording

/-!
# What a pass makes of a node

Where it is known what a pass makes of each part of a node, it is known what it makes of the node:
the parts of each slot are replaced in order, holes stay, and the node stays as it was if every part
did. This is so in every monad, for every way to say what an action gives that agrees with doing
nothing and with doing one thing after another.
-/

set_option autoImplicit false

namespace ModuleLowering

/-! ## Forms with other parts -/

namespace Slot

variable {α β γ : Type}

/-- A slot with other parts: `part` says what stands in the place of a single part, and `item` what
stands in the place of a part of a list. Holes stay. -/
def edit (part item : α → Option β) : Slot α → Slot β
  | one p => one (p.bind part)
  | many items => many (items.filterMap item)
  | sparse items => sparse (items.filterMap fun
    | none => some none
    | some a => (item a).map some)

/-- Whether a slot is for a single part. -/
def isSingle : Slot α → Bool
  | one _ => true
  | _ => false

/-- A single part as a form is rebuilt. -/
def partRun (part : α → Option β) : Option α → Option β
  | none => none
  | some a => part a

/-- A list of parts as a form is rebuilt. -/
def listRun (item : α → Option β) (items : List α) : List β :=
  Id.run (items.filterMapM fun a => pure (item a))

/-- A list of parts with holes as a form is rebuilt. -/
def sparseRun (item : α → Option β) (items : List (Option α)) : List (Option β) :=
  Id.run (items.filterMapM fun
    | none => pure (some none)
    | some a => do return (← pure (item a)).map some)

theorem partRun_eq (part : α → Option β) (p : Option α) : partRun part p = p.bind part := by
  cases p <;> rfl

theorem listRun_eq (item : α → Option β) (items : List α) :
    listRun item items = items.filterMap item := by
  unfold listRun
  induction items with
  | nil => rfl
  | cons a items ih =>
    rw [List.filterMapM_cons, List.filterMap_cons, Id.run_bind, ← ih]
    cases item a <;> rfl

theorem sparseRun_eq (item : α → Option β) (items : List (Option α)) :
    sparseRun item items = items.filterMap fun
      | none => some none
      | some a => (item a).map some := by
  rw [← listRun_eq]
  unfold sparseRun listRun
  congr 2

theorem parts_edit (part item : α → Option β) (slot : Slot α) :
    (slot.edit part item).parts =
      slot.parts.filterMap (if slot.isSingle then part else item) := by
  cases slot with
  | one p =>
    cases p with
    | none => rfl
    | some a =>
      show (part a).toList = [a].filterMap part
      cases h : part a <;> simp [h]
  | many items => rfl
  | sparse items =>
    show (items.filterMap _).filterMap id = (items.filterMap id).filterMap item
    rw [List.filterMap_filterMap, List.filterMap_filterMap]
    congr 1
    funext p
    cases p with
    | none => rfl
    | some a =>
      show ((item a).map some).bind id = item a
      cases item a <;> rfl

end Slot

namespace Form

open Slot (partRun listRun sparseRun partRun_eq listRun_eq sparseRun_eq)

variable {α β γ : Type}

/-- A form with other parts: `part` says what stands in the place of a single part, and `item` what
stands in the place of a part of a list. Holes stay. -/
def edit (part item : α → Option β) (form : Form α) : Form β :=
  Id.run (form.editM (fun a => pure (part a)) fun a => pure (item a))

/-- A form without its parts, but for holes. -/
def stripped (form : Form α) : Form Unit := form.edit (fun _ => none) fun _ => none

theorem slots_edit (part item : α → Option β) (form : Form α) :
    (form.edit part item).slots = form.slots.map (Slot.edit part item) := by
  have hedit : Slot.edit part item = fun
      | .one p => .one (partRun part p)
      | .many items => .many (listRun item items)
      | .sparse items => .sparse (sparseRun item items) := by
    funext slot
    cases slot with
    | one p => exact congrArg Slot.one (partRun_eq part p).symm
    | many items => exact congrArg Slot.many (listRun_eq item items).symm
    | sparse items => exact congrArg Slot.sparse (sparseRun_eq item items).symm
  rw [hedit]
  cases form <;> rfl

/-- Editing a form twice. -/
theorem edit_edit (part item : α → Option β) (part' item' : β → Option γ) (form : Form α) :
    (form.edit part item).edit part' item' =
      form.edit (fun a => (part a).bind part') fun a => (item a).bind item' := by
  have hpart (p : Option α) :
      partRun part' (partRun part p) = partRun (fun a => (part a).bind part') p := by
    simp only [partRun_eq, Option.bind_assoc]
  have hlist (items : List α) :
      listRun item' (listRun item items) = listRun (fun a => (item a).bind item') items := by
    simp only [listRun_eq, List.filterMap_filterMap]
  have hsparse (items : List (Option α)) :
      sparseRun item' (sparseRun item items) =
        sparseRun (fun a => (item a).bind item') items := by
    simp only [sparseRun_eq, List.filterMap_filterMap]
    congr 1
    funext p
    cases p with
    | none => rfl
    | some a =>
      show ((item a).map some).bind _ = ((item a).bind item').map some
      cases item a <;> rfl
  cases form
  all_goals
    conv => lhs; whnf
    conv => rhs; whnf
    try congr 1
  all_goals first
    | rfl
    | exact hpart _
    | exact hlist _
    | exact hsparse _

theorem stripped_edit (part item : α → Option β) (form : Form α) :
    (form.edit part item).stripped = form.stripped := by
  have hnone (p : Option β) : (p.bind fun _ => (none : Option Unit)) = none := by
    cases p <;> rfl
  unfold stripped
  simp only [edit_edit, hnone]

/-- What counts is what stands in the place of the parts that there are. -/
theorem edit_congr {part item part' item' : α → Option β} {form : Form α}
    (hpart : ∀ a ∈ form.parts, part a = part' a) (hitem : ∀ a ∈ form.parts, item a = item' a) :
    form.edit part item = form.edit part' item' := by
  have single {p : Option α} (h : ∀ a ∈ p.toList, part a = part' a) :
      partRun part p = partRun part' p := by
    cases p with
    | none => rfl
    | some a => exact h a (by simp)
  have list {items : List α} (h : ∀ a ∈ items, item a = item' a) :
      listRun item items = listRun item' items := by
    rw [listRun_eq, listRun_eq]
    exact List.filterMap_congr h
  have sparse {items : List (Option α)} (h : ∀ a ∈ items.filterMap id, item a = item' a) :
      sparseRun item items = sparseRun item' items := by
    rw [sparseRun_eq, sparseRun_eq]
    refine List.filterMap_congr fun p hp => ?_
    cases p with
    | none => rfl
    | some a => exact congrArg (Option.map some) (h a (List.mem_filterMap.2 ⟨_, hp, rfl⟩))
  cases form
  all_goals
    simp only [Form.parts, Form.slots, Slot.parts, List.flatMap_cons, List.flatMap_nil,
      List.append_nil, List.forall_mem_append] at hpart hitem
    try casesm* _ ∧ _
    conv => lhs; whnf
    conv => rhs; whnf
    try congr 1
  all_goals first
    | rfl
    | exact single (by assumption)
    | exact list (by assumption)
    | exact sparse (by assumption)

theorem edit_some (form : Form α) : form.edit some some = form := by
  have hlist (items : List α) : listRun some items = items := by
    rw [listRun_eq, List.filterMap_some]
  have hsparse (items : List (Option α)) : sparseRun some items = items := by
    rw [sparseRun_eq]
    refine (List.filterMap_congr fun p _ => ?_).trans List.filterMap_some
    cases p <;> rfl
  have hpart (p : Option α) : partRun some p = p := by
    cases p <;> rfl
  cases form
  all_goals
    conv => lhs; whnf
    try congr 1
  all_goals first
    | rfl
    | exact hpart _
    | exact hlist _
    | exact hsparse _

end Form

/-! ## What actions give -/

/-- A way to say what an action gives, whatever else it does. -/
structure Giving (m : Type → Type) [Monad m] where
  Gives {α : Type} : m α → α → Prop
  pure {α : Type} (a : α) : Gives (Pure.pure a) a
  bind {α β : Type} {x : m α} {f : α → m β} {a : α} {b : β} :
    Gives x a → Gives (f a) b → Gives (x >>= f) b

namespace Giving

/-- Without a state an action is what it gives. -/
def plain : Giving Id where
  Gives x a := Id.run x = a
  pure _ := rfl
  bind := by
    rintro α β x f _ _ rfl rfl
    rfl

/-- From every state that `I` allows an action gives the same, and stays within `I`. -/
def within {σ : Type} (I : σ → Prop) : Giving (StateM σ) where
  Gives x a := ∀ s, I s → (x.run s).1 = a ∧ I (x.run s).2
  pure _ := fun _ hs => ⟨rfl, hs⟩
  bind := by
    rintro α β x f a b hx hf s hs
    obtain ⟨rfl, hmid⟩ := hx s hs
    exact hf _ hmid

variable {m : Type → Type} [Monad m] (G : Giving m)


/-- An action gives `a`, and it sets a mark if `changed` holds. -/
def Marks {α : Type} (action : StateT Bool m α) (a : α) (changed : Bool) : Prop :=
  ∀ mark, G.Gives (action.run mark) (a, mark || changed)

namespace Marks

open Node
open Slot (partRun listRun sparseRun)

variable {G} {α β γ : Type}

theorem pure (a : α) : G.Marks (Pure.pure a) a false := by
  intro mark
  rw [Bool.or_false]
  exact G.pure _

theorem bind {x : StateT Bool m α} {f : α → StateT Bool m β} {a : α} {b : β} {c d : Bool}
    (h : G.Marks x a c) (k : G.Marks (f a) b d) : G.Marks (x >>= f) b (c || d) := by
  intro mark
  rw [← Bool.or_assoc]
  exact G.bind (h mark) (k _)

theorem map {x : StateT Bool m α} {a : α} {c : Bool} (k : α → β) (h : G.Marks x a c) :
    G.Marks (x >>= fun a => Pure.pure (k a)) (k a) c := by
  have hk := bind h (f := fun a => Pure.pure (k a)) (pure (k a))
  rwa [Bool.or_false] at hk

variable [LawfulMonad m] {f : Node → Form β → β} {part item : Node → Option γ}
  {changed : Node → Bool}

omit [LawfulMonad m] in
theorem single {onPart : β → StateT Bool m (Option γ)} {p : Option Node}
    (h : ∀ c ∈ p.toList, G.Marks (onPart (c.fold f)) (part c) (changed c)) :
    G.Marks (match foldPart f p with | none => Pure.pure none | some b => onPart b)
      (partRun part p) (p.toList.any changed) := by
  cases p with
  | none => exact pure none
  | some c => simpa [foldPart, partRun] using h c (by simp)

theorem list {onItem : β → StateT Bool m (Option γ)} {ns : List Node}
    (h : ∀ c ∈ ns, G.Marks (onItem (c.fold f)) (item c) (changed c)) :
    G.Marks ((foldList f ns).filterMapM onItem) (listRun item ns) (ns.any changed) := by
  rw [Slot.listRun_eq]
  induction ns with
  | nil => exact pure []
  | cons c ns ih =>
    have hrest := ih fun d hd => h d (List.mem_cons_of_mem c hd)
    rw [foldList, List.filterMapM_cons, List.filterMap_cons, List.any_cons]
    refine bind (h c List.mem_cons_self) ?_
    cases item c with
    | none => exact hrest
    | some b => exact hrest.map _

theorem sparse {onItem : β → StateT Bool m (Option γ)} {ps : List (Option Node)}
    (h : ∀ c ∈ ps.filterMap id, G.Marks (onItem (c.fold f)) (item c) (changed c)) :
    G.Marks
      ((foldSparse f ps).filterMapM fun
        | none => Pure.pure (some none)
        | some b => return (← onItem b).map some)
      (sparseRun item ps) ((ps.filterMap id).any changed) := by
  rw [Slot.sparseRun_eq]
  induction ps with
  | nil => exact pure []
  | cons p ps ih =>
    rw [foldSparse, List.filterMapM_cons]
    cases p with
    | none =>
      have hhole : G.Marks (Pure.pure (some none)) (some (none : Option γ)) false := pure _
      exact bind hhole ((ih h).map _)
    | some c =>
      have hrest := ih fun d hd => h d (List.mem_cons_of_mem c hd)
      refine bind ((h c List.mem_cons_self).map (Option.map some)) ?_
      rw [List.filterMap_cons]
      dsimp only
      cases item c with
      | none => exact hrest
      | some b => exact hrest.map _

/-- Rebuilding a form whose parts are folded. -/
theorem editM {onPart onItem : β → StateT Bool m (Option γ)} {form : Form Node}
    (hpart : ∀ c ∈ form.parts, G.Marks (onPart (c.fold f)) (part c) (changed c))
    (hitem : ∀ c ∈ form.parts, G.Marks (onItem (c.fold f)) (item c) (changed c)) :
    G.Marks ((foldForm f form).editM onPart onItem) (form.edit part item)
      (form.parts.any changed) := by
  unfold Form.parts at hpart hitem ⊢
  rw [List.any_flatMap]
  cases form
  -- The actions run on the slots of a form in order, so there is one step for each slot.
  all_goals
    simp only [Form.slots, Slot.parts, List.flatMap_cons, List.flatMap_nil, List.append_nil,
      List.forall_mem_append] at hpart hitem
    try casesm* _ ∧ _
    simp only [foldForm, Form.slots, Slot.parts, List.any_cons, List.any_nil]
    repeat
      refine bind (by
        first
        | exact single (by assumption)
        | exact list (by assumption)
        | exact sparse (by assumption)) ?_
    exact pure _

end Marks

end Giving

/-! ## Nodes -/

namespace Node

/-- A node with other parts. -/
def editParts (part item : Node → Option Node) (n : Node) : Node :=
  n.withForm (n.form.edit part item)

/-- Each part of a node with other parts stands in the place of one of its parts. -/
theorem mem_children_editParts {part item : Node → Option Node} {n c' : Node}
    (h : c' ∈ (n.editParts part item).children) :
    ∃ c ∈ n.children, part c = some c' ∨ item c = some c' := by
  rw [show (n.editParts part item).children = (n.form.edit part item).parts from rfl, Form.parts,
    Form.slots_edit, List.flatMap_map] at h
  obtain ⟨slot, hslot, hc'⟩ := List.mem_flatMap.1 h
  rw [Slot.parts_edit] at hc'
  obtain ⟨c, hc, hpick⟩ := List.mem_filterMap.1 hc'
  refine ⟨c, List.mem_flatMap.2 ⟨slot, hslot, hc⟩, ?_⟩
  cases hsingle : slot.isSingle with
  | true => exact .inl (by rwa [hsingle] at hpick)
  | false => exact .inr (by rwa [hsingle] at hpick)

/-- What a pass over the parts of a node makes of the node, given what it makes of each part. -/
def descended (out : Node → Outcome) (n : Node) : Outcome :=
  if n.children.any fun c => !(out c).isSame then
    .replaced (n.editParts (fun c => (out c).part? c) fun c => (out c).item? c)
  else .same

theorem descended_ne_removed (out : Node → Outcome) (n : Node) : n.descended out ≠ .removed := by
  unfold descended
  split
  · nofun
  · nofun

/-- Either way the node stands there with what stands in the place of its parts. -/
theorem item?_descended (out : Node → Outcome) (n : Node) :
    (n.descended out).item? n =
      some (n.editParts (fun c => (out c).part? c) fun c => (out c).item? c) := by
  unfold descended
  split
  case isTrue => rfl
  case isFalse h =>
    have hsame : ∀ c ∈ n.form.parts, out c = .same := by
      intro c hc
      cases hout : out c with
      | same => rfl
      | replaced n' => exact absurd (List.any_eq_true.2 ⟨c, hc, by rw [hout]; rfl⟩) h
      | removed => exact absurd (List.any_eq_true.2 ⟨c, hc, by rw [hout]; rfl⟩) h
    have hparts : ∀ c ∈ n.form.parts, (out c).part? c = some c := fun c hc => by
      rw [hsame c hc]
      rfl
    have hitems : ∀ c ∈ n.form.parts, (out c).item? c = some c := fun c hc => by
      rw [hsame c hc]
      rfl
    have hform : n.form.edit (fun c => (out c).part? c) (fun c => (out c).item? c) = n.form :=
      (Form.edit_congr hparts hitems).trans n.form.edit_some
    rw [editParts, hform, withForm_self]
    rfl

theorem descended_eq_same_iff {out : Node → Outcome} {n : Node} :
    n.descended out = .same ↔ ∀ c ∈ n.children, out c = .same := by
  have hsame (o : Outcome) : o.isSame = true ↔ o = .same := by
    cases o <;> simp [Outcome.isSame]
  unfold descended
  split
  case isTrue h =>
    obtain ⟨c, hc, hout⟩ := List.any_eq_true.1 h
    refine ⟨(fun h => by cases h), fun hall => ?_⟩
    rw [hall c hc] at hout
    cases hout
  case isFalse h =>
    refine ⟨fun _ c hc => ?_, fun _ => rfl⟩
    refine (hsame _).1 (eq_true_of_ne_false fun hout => ?_)
    exact h (List.any_eq_true.2 ⟨c, hc, by rw [hout]; rfl⟩)

variable {m : Type → Type} [Monad m]

/-- The parts of a node, each with the pass by a rule over it. -/
def partPasses (rule : Node → m Outcome → m Outcome) (n : Node) : Form (Node × m Outcome) :=
  foldForm (fun n form => (n, rule n (descend n form))) n.form

theorem rewriteM_eq_rule (rule : Node → m Outcome → m Outcome) (n : Node) :
    n.rewriteM rule = rule n (descend n (n.partPasses rule)) := by
  unfold rewriteM
  rw [fold_eq]
  rfl

/-- What a pass over the parts of a node gives, if it is known what it gives for each part. -/
theorem gives_descend [LawfulMonad m] (G : Giving m) {rule : Node → m Outcome → m Outcome}
    {out : Node → Outcome} {n : Node} (h : ∀ c ∈ n.children, G.Gives (c.rewriteM rule) (out c)) :
    G.Gives (descend n (n.partPasses rule)) (n.descended out) := by
  let f (n : Node) (form : Form (Node × m Outcome)) : Node × m Outcome := (n, rule n (descend n form))
  let runPart (pick : Node → Outcome → Option Node) (part : Node × m Outcome) :
      StateT Bool m (Option Node) := do
    let outcome ← StateT.lift part.2
    modify (· || !outcome.isSame)
    return pick part.1 outcome
  have hmarks (pick : Node → Outcome → Option Node) : ∀ c ∈ n.form.parts,
      G.Marks (runPart pick (c.fold f)) (pick c (out c)) (!(out c).isSame) := by
    intro c hc mark
    have hc' : c.fold f = (c, c.rewriteM rule) := by
      rw [fold_eq, rewriteM_eq_rule]
      rfl
    rw [hc']
    exact G.bind (G.bind (h c hc) (G.pure _)) (G.bind (G.pure _) (G.pure _))
  have hform := Giving.Marks.editM (hmarks Outcome.part?) (hmarks Outcome.item?) false
  exact G.bind hform (G.pure _)

end Node

end ModuleLowering
