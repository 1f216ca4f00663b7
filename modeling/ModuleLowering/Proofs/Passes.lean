import ModuleLowering.Proofs.Editing

/-!
# Laws of passes

A pass runs over the parts of a node before it looks at the node. What it keeps in its state and how
what it makes is related to what it was given follow from what it does at each node.
-/

set_option autoImplicit false

namespace ModuleLowering.Node

variable {σ : Type}

/-- A pass over a node ended in a state that `I` allows. It left the state as it was if it left the
node as it was, and what it put in the place of the node is as `R` says. -/
structure Passed (I : σ → Prop) (R : Node → Prop) (before : σ) (outcome : Outcome) (after : σ) :
    Prop where
  invariant : I after
  same : outcome = .same → after = before
  replaced : ∀ n, outcome = .replaced n → R n

namespace Passed

variable {I : σ → Prop} {R : Node → Prop} {before after : σ}

theorem of_same (h : I before) : Passed I R before .same before := by
  refine ⟨h, fun _ => rfl, ?_⟩
  intro n ho
  cases ho

theorem of_removed (h : I after) : Passed I R before .removed after := by
  refine ⟨h, ?_, ?_⟩
  · intro ho
    cases ho
  · intro n ho
    cases ho

theorem of_replaced {n : Node} (h : I after) (hn : R n) :
    Passed I R before (.replaced n) after := by
  refine ⟨h, ?_, ?_⟩
  · intro ho
    cases ho
  · intro n' ho
    cases ho
    exact hn

end Passed

/-- A pass over a node, from every state that `I` allows. -/
def Passes (I : σ → Prop) (R : Node → Prop) (pass : StateM σ Outcome) : Prop :=
  ∀ s, I s → Passed I R s (pass.run s).1 (pass.run s).2

/-- A pass over a part, which marks whether it changed anything. -/
def passOver (pick : Node → Outcome → Option Node) (part : Node × StateM σ Outcome) :
    StateT Bool (StateM σ) (Option Node) := do
  let outcome ← StateT.lift part.2
  modify (· || !outcome.isSame)
  return pick part.1 outcome

theorem run_descend (n : Node) (form : Form (Node × StateM σ Outcome)) (s : σ) :
    (descend n form).run s =
      let out := ((form.editM (passOver Outcome.part?) (passOver Outcome.item?)).run false).run s
      (if out.1.2 then .replaced (n.withForm out.1.1) else .same, out.2) := rfl

theorem descend_ne_removed (n : Node) (form : Form (Node × StateM σ Outcome)) (s : σ) :
    ((descend n form).run s).1 ≠ .removed := by
  rw [run_descend]
  dsimp only
  split
  · simp
  · simp

/-- The state is the one before, as long as nothing is marked as changed. -/
def Unchanged (I : σ → Prop) (before : σ) (changed : Bool) (s : σ) : Prop :=
  I s ∧ (changed = false → s = before)

/-- Passing over a part marks whether it changed the part, and puts there the part, what the pass
made of it or an empty statement. -/
theorem keeps_passOver {I : σ → Prop} {R : Node → Prop} {before : σ}
    {pick : Node → Outcome → Option Node} {p : Node} {pass : StateM σ Outcome} (h : Passes I R pass)
    (hpick : ∀ o b, pick p o = some b → b = p ∨ o = .replaced b ∨ b = mk p.loc .emptyStatement)
    (hp : R p) (hempty : R (mk p.loc .emptyStatement)) :
    Keeps (Unchanged I before) (passOver pick (p, pass)) fun o => ∀ b ∈ o, R b := by
  intro mark s hs
  obtain ⟨hI, hsame, hR⟩ := h s hs.1
  show Unchanged I before (mark || !(pass.run s).1.isSame) (pass.run s).2 ∧
    ∀ b ∈ pick p (pass.run s).1, R b
  refine ⟨⟨hI, ?_⟩, ?_⟩
  · intro hmark
    rw [Bool.or_eq_false_iff] at hmark
    have ho : (pass.run s).1 = .same := by
      cases hout : (pass.run s).1 with
      | same => rfl
      | replaced n =>
        rw [hout] at hmark
        exact absurd hmark.2 (by simp [Outcome.isSame])
      | removed =>
        rw [hout] at hmark
        exact absurd hmark.2 (by simp [Outcome.isSame])
    rw [hsame ho]
    exact hs.2 hmark.1
  · intro b hb
    rcases hpick _ b hb with rfl | ho | rfl
    · exact hp
    · exact hR b ho
    · exact hempty

/-- A pass that never changes a part keeps it and the state. -/
theorem keeps_passOver_same {I : σ → Prop} {before : σ} {p : Node} {pass : StateM σ Outcome}
    (h : ∀ s, pass.run s = (.same, s)) :
    Keeps (Unchanged I before) (passOver Outcome.item? (p, pass)) fun o => o = some p := by
  intro mark s hs
  have hrun : ((passOver Outcome.item? (p, pass)).run mark).run s =
      let out := pass.run s
      ((Outcome.item? p out.1, mark || !out.1.isSame), out.2) := rfl
  show Unchanged I before (((passOver Outcome.item? (p, pass)).run mark).run s).1.2 _ ∧ _
  rw [hrun, h s]
  exact ⟨by simpa [Outcome.isSame] using hs, rfl⟩

/-- The parts of a node, each with the pass by a rule over it. -/
def childPasses (rule : Node → StateM σ Outcome → StateM σ Outcome) (n : Node) :
    Form (Node × StateM σ Outcome) :=
  foldForm (fun n form => (n, rule n (descend n form))) n.form

theorem rewriteM_eq (rule : Node → StateM σ Outcome → StateM σ Outcome) (n : Node) :
    n.rewriteM rule = rule n (descend n (n.childPasses rule)) := by
  unfold rewriteM
  rw [fold_eq]
  rfl

theorem identifier?_foldForm {β : Type} (f : Node → Form β → β) (form : Form Node) :
    (foldForm f form).identifier? = form.identifier? := by
  cases form <;> rfl

theorem parts_childPasses (rule : Node → StateM σ Outcome → StateM σ Outcome) (n : Node) :
    (n.childPasses rule).parts = n.children.map fun c => (c, c.rewriteM rule) := by
  unfold childPasses
  rw [parts_foldForm]
  refine List.map_congr_left fun c _ => ?_
  unfold rewriteM
  rw [fold_eq]

/-- In the place of a single part stands the part, what a pass made of it or an empty statement. -/
theorem part?_cases (p : Node) (o : Outcome) (b : Node) (h : o.part? p = some b) :
    b = p ∨ o = .replaced b ∨ b = mk p.loc .emptyStatement := by
  unfold Outcome.part? at h
  split at h
  case h_1 =>
    split at h
    case isTrue => exact Or.inr (Or.inr (Option.some.inj h).symm)
    case isFalse => cases h
  case h_2 =>
    cases o with
    | same => exact Or.inl (Option.some.inj h).symm
    | replaced n => exact Or.inr (Or.inl (congrArg _ (Option.some.inj h)))
    | removed => cases h

theorem item?_cases (p : Node) (o : Outcome) (b : Node) (h : o.item? p = some b) :
    b = p ∨ o = .replaced b ∨ b = mk p.loc .emptyStatement := by
  cases o with
  | same => exact Or.inl (Option.some.inj h).symm
  | replaced n => exact Or.inr (Or.inl (congrArg _ (Option.some.inj h)))
  | removed => cases h

/-- Passing over the parts of a node gives a node with parts made of them. -/
theorem passes_descend {I : σ → Prop} {R : Node → Node → Prop}
    {rule : Node → StateM σ Outcome → StateM σ Outcome} {n : Node} (hR : ∀ c, R c c)
    (hempty : ∀ c loc, R c (mk loc .emptyStatement))
    (h : ∀ c ∈ n.children, Passes I (R c) (c.rewriteM rule)) :
    Passes I
      (fun n' => ∃ form, n' = n.withForm form ∧ form.identifier? = n.form.identifier? ∧
        ComesFrom R n.children form.parts)
      (descend n (n.childPasses rule)) := by
  intro s hs
  have hkeep : ∀ pick : Node → Outcome → Option Node,
      (∀ p o b, pick p o = some b → b = p ∨ o = .replaced b ∨ b = mk p.loc .emptyStatement) →
      ∀ part ∈ (n.childPasses rule).parts,
      Keeps (Unchanged I s) (passOver pick part) fun o => ∀ b ∈ o, R part.1 b := by
    intro pick hpick part hpart
    rw [parts_childPasses] at hpart
    obtain ⟨c, hc, rfl⟩ := List.mem_map.1 hpart
    exact keeps_passOver (h c hc) (hpick c) (hR c) (hempty c c.loc)
  have hedit := Keeps.editM (J := Unchanged I s)
    (R := fun (part : Node × StateM σ Outcome) b => R part.1 b)
    (hkeep Outcome.part? part?_cases) (hkeep Outcome.item? item?_cases) false s ⟨hs, fun _ => rfl⟩
  rw [parts_childPasses] at hedit
  rw [run_descend]
  generalize (((n.childPasses rule).editM (passOver Outcome.part?)
    (passOver Outcome.item?)).run false).run s = out at hedit ⊢
  obtain ⟨⟨form, changed⟩, s'⟩ := out
  obtain ⟨⟨hI, hsame⟩, hname, hfrom⟩ := hedit
  cases changed with
  | false =>
    have hs' : s' = s := hsame rfl
    subst hs'
    exact .of_same hI
  | true =>
    refine .of_replaced hI ⟨form, rfl, hname.trans (identifier?_foldForm _ _), ?_⟩
    intro b hb
    obtain ⟨part, hpart, hab⟩ := hfrom b hb
    obtain ⟨c, hc, rfl⟩ := List.mem_map.1 hpart
    exact ⟨c, hc, hab⟩

/-- Passing over parts that all stay leaves the node and the state as they were. -/
theorem run_descend_same {rule : Node → StateM σ Outcome → StateM σ Outcome} {n : Node} {s : σ}
    (h : ∀ c ∈ n.children, (c.rewriteM rule).run s = (.same, s)) :
    (descend n (n.childPasses rule)).run s = (.same, s) := by
  have hkeep : ∀ pick : Node → Outcome → Option Node, ∀ part ∈ (n.childPasses rule).parts,
      Keeps (fun changed s' => changed = false ∧ s' = s) (passOver pick part)
        fun o => ∀ b ∈ o, (fun (_ : Node × StateM σ Outcome) (_ : Node) => True) part b := by
    intro pick part hpart
    rw [parts_childPasses] at hpart
    obtain ⟨c, hc, rfl⟩ := List.mem_map.1 hpart
    rintro changed s' ⟨rfl, rfl⟩
    have hrun : ((passOver pick (c, c.rewriteM rule)).run false).run s' =
        let out := (c.rewriteM rule).run s'
        ((pick c out.1, false || !out.1.isSame), out.2) := rfl
    rw [hrun, h c hc]
    exact ⟨⟨rfl, rfl⟩, fun _ _ => trivial⟩
  have hedit := Keeps.editM (hkeep Outcome.part?) (hkeep Outcome.item?) false s ⟨rfl, rfl⟩
  rw [run_descend]
  generalize (((n.childPasses rule).editM (passOver Outcome.part?)
    (passOver Outcome.item?)).run false).run s = out at hedit ⊢
  obtain ⟨⟨form, changed⟩, s'⟩ := out
  obtain ⟨⟨rfl, rfl⟩, -⟩ := hedit
  rfl

/-- The statements of a module, each with the pass by a rule over it. -/
theorem childPasses_program {rule : Node → StateM σ Outcome → StateM σ Outcome} {n : Node}
    {body : List Node} (h : n.form = .program body) :
    n.childPasses rule = .program (body.map fun c => (c, c.rewriteM rule)) := by
  unfold childPasses
  rw [h]
  show Form.program (foldList _ body) = _
  rw [foldList_eq_map]
  congr 1
  refine List.map_congr_left fun c _ => ?_
  unfold rewriteM
  rw [fold_eq]

/-- Passing over the statements of a module, of which those in front all stay. -/
theorem passes_descend_program {I : σ → Prop} {R : Node → Node → Prop}
    {rule : Node → StateM σ Outcome → StateM σ Outcome} {n : Node} {front body : List Node}
    (hform : n.form = .program (front ++ body)) (hR : ∀ c, R c c)
    (hempty : ∀ c loc, R c (mk loc .emptyStatement))
    (hfront : ∀ c ∈ front, ∀ s, (c.rewriteM rule).run s = (.same, s))
    (hbody : ∀ c ∈ body, Passes I (R c) (c.rewriteM rule)) :
    Passes I (fun n' => ∃ rest, n' = n.withForm (.program (front ++ rest)) ∧ ComesFrom R body rest)
      (descend n (n.childPasses rule)) := by
  intro s hs
  let withPass (c : Node) : Node × StateM σ Outcome := (c, c.rewriteM rule)
  have hkeep : ∀ part ∈ front.map withPass,
      Keeps (Unchanged I s) (passOver Outcome.item? part) fun o => o = some part.1 := by
    intro part hpart
    obtain ⟨c, hc, rfl⟩ := List.mem_map.1 hpart
    exact keeps_passOver_same (hfront c hc)
  have hitems : ∀ part ∈ body.map withPass,
      Keeps (Unchanged I s) (passOver Outcome.item? part) fun o => ∀ b ∈ o, R part.1 b := by
    intro part hpart
    obtain ⟨c, hc, rfl⟩ := List.mem_map.1 hpart
    exact keeps_passOver (hbody c hc) (item?_cases c) (hR c) (hempty c c.loc)
  have hedit : Keeps (Unchanged I s)
      ((n.childPasses rule).editM (passOver Outcome.part?) (passOver Outcome.item?))
      fun form => ∃ rest, form = .program (front ++ rest) ∧ ComesFrom R body rest := by
    rw [childPasses_program hform, List.map_append]
    refine Keeps.bind (Keeps.filterMapM_append Prod.fst
      (R := fun (part : Node × StateM σ Outcome) b => R part.1 b) hkeep hitems)
      fun out hout => Keeps.pure ?_
    obtain ⟨rest, rfl, hfrom⟩ := hout
    refine ⟨rest, ?_, ?_⟩
    · rw [List.map_map]
      exact congrArg (fun l => Form.program (l ++ rest)) (List.map_id front)
    · intro b hb
      obtain ⟨part, hpart, hab⟩ := hfrom b hb
      obtain ⟨c, hc, rfl⟩ := List.mem_map.1 hpart
      exact ⟨c, hc, hab⟩
  obtain ⟨⟨hI, hsame⟩, rest, hform', hfrom⟩ := hedit false s ⟨hs, fun _ => rfl⟩
  rw [run_descend]
  generalize (((n.childPasses rule).editM (passOver Outcome.part?)
    (passOver Outcome.item?)).run false).run s = out at hI hsame hform' ⊢
  obtain ⟨⟨form, changed⟩, s'⟩ := out
  cases changed with
  | false =>
    have hs' : s' = s := hsame rfl
    subst hs'
    exact .of_same hI
  | true => exact .of_replaced hI ⟨rest, congrArg n.withForm hform', hfrom⟩

end ModuleLowering.Node
