import Mathlib.Tactic.CasesM
import ModuleLowering.Proofs.Traversal

/-!
# Folding forms again

What a fold makes of the parts of a form is all that counts: folds that agree on the parts agree on
the form, a fold of what another fold has made is one fold, and a fold that gives each part back
gives the form back.
-/

set_option autoImplicit false

namespace ModuleLowering.Node

variable {β : Type}

@[simp] theorem fold_const (k : Node → β) : fold (fun n _ => k n) = k := by
  funext n
  rw [fold_eq]

theorem foldPart_congr {f g : Node → Form β → β} {p : Option Node}
    (h : ∀ c ∈ p.toList, c.fold f = c.fold g) : foldPart f p = foldPart g p := by
  cases p with
  | none => rfl
  | some c => simp [foldPart, h c (by simp)]

theorem foldList_congr {f g : Node → Form β → β} {ns : List Node}
    (h : ∀ c ∈ ns, c.fold f = c.fold g) : foldList f ns = foldList g ns := by
  simpa only [foldList_eq_map] using List.map_congr_left h

theorem foldSparse_congr {f g : Node → Form β → β} {ps : List (Option Node)}
    (h : ∀ c ∈ ps.filterMap id, c.fold f = c.fold g) : foldSparse f ps = foldSparse g ps := by
  induction ps with
  | nil => rfl
  | cons p ps ih =>
    cases p with
    | none => simp [foldSparse, foldPart, ih h]
    | some c =>
      have hrest := ih fun d hd => h d (List.mem_cons_of_mem c hd)
      simp [foldSparse, foldPart, hrest, h c List.mem_cons_self]

theorem foldForm_congr {f g : Node → Form β → β} {form : Form Node}
    (h : ∀ c ∈ form.parts, c.fold f = c.fold g) : foldForm f form = foldForm g form := by
  cases form
  all_goals
    simp only [Form.parts, Form.slots, Slot.parts, List.flatMap_cons, List.flatMap_nil,
      List.append_nil, List.forall_mem_append] at h
    try casesm* _ ∧ _
    simp only [foldForm]
    try congr 1
    all_goals first
      | exact foldPart_congr (by assumption)
      | exact foldList_congr (by assumption)
      | exact foldSparse_congr (by assumption)

/-- A fold of what another fold has made of a form is one fold of the form. -/
theorem foldForm_foldForm (f : Node → Form Node → Node) (g : Node → Form β → β)
    (form : Form Node) :
    foldForm g (foldForm f form) = foldForm (fun n _ => (n.fold f).fold g) form := by
  have hpart : ∀ p, foldPart g (foldPart f p) = foldPart (fun n _ => (n.fold f).fold g) p := by
    intro p
    cases p <;> simp [foldPart]
  have hlist : ∀ ns, foldList g (foldList f ns) = foldList (fun n _ => (n.fold f).fold g) ns := by
    intro ns
    simp [foldList_eq_map]
  have hsparse : ∀ ps,
      foldSparse g (foldSparse f ps) = foldSparse (fun n _ => (n.fold f).fold g) ps := by
    intro ps
    simp [foldSparse_eq_map, Function.comp_def]
  cases form <;> simp only [foldForm, hpart, hlist, hsparse]

theorem foldForm_self (form : Form Node) : foldForm (fun n _ => n) form = form := by
  have hpart : ∀ p, foldPart (fun n _ => n) p = p := by
    intro p
    cases p <;> simp [foldPart]
  have hlist : ∀ ns, foldList (fun n _ => n) ns = ns := by
    intro ns
    simp [foldList_eq_map]
  have hsparse : ∀ ps, foldSparse (fun n _ => n) ps = ps := by
    intro ps
    simp [foldSparse_eq_map]
  cases form <;> simp only [foldForm, hpart, hlist, hsparse]

/-- A fold that gives each part of a form back gives the form back. -/
theorem foldForm_eq_self {f : Node → Form Node → Node} {form : Form Node}
    (h : ∀ c ∈ form.parts, c.fold f = c) : foldForm f form = form := by
  rw [foldForm_congr (g := fun n _ => n), foldForm_self]
  simpa using h

theorem withForm_self (n : Node) : n.withForm n.form = n := by
  cases n
  rfl

end ModuleLowering.Node
