import ModuleLowering.Proofs.Folds
import ModuleLowering.Proofs.Passes

/-!
# Passes that keep a log

A pass over a tree may add to a log in its state. If for each part of a node it is known what the
pass puts in its place and what it adds, the same is known for the node: the parts are passed over
in order, so what they add follows one another. A pass that puts nothing in the place of any part
reports that the node stays, which agrees with a fold that changes a part only if something is
added.
-/

set_option autoImplicit false

namespace ModuleLowering

open Node

/-- From every mark and state that `J` allows, an action gives `a`, stays within `J` and adds `ws`
to the log. -/
def Writes {σ α ω : Type} (J : Bool → σ → Prop) (log : σ → List ω)
    (action : StateT Bool (StateM σ) α) (a : α) (ws : List ω) : Prop :=
  ∀ mark s, J mark s →
    ((action.run mark).run s).1.1 = a ∧
      J ((action.run mark).run s).1.2 ((action.run mark).run s).2 ∧
      log ((action.run mark).run s).2 = log s ++ ws

namespace Writes

variable {σ α β γ ω : Type} {J : Bool → σ → Prop} {log : σ → List ω}

theorem pure (a : α) : Writes J log (Pure.pure a) a [] := by
  intro mark s hs
  exact ⟨rfl, hs, (List.append_nil _).symm⟩

theorem bind {x : StateT Bool (StateM σ) α} {f : α → StateT Bool (StateM σ) β} {a : α} {b : β}
    {ws ws' : List ω} (h : Writes J log x a ws) (k : Writes J log (f a) b ws') :
    Writes J log (x >>= f) b (ws ++ ws') := by
  intro mark s hs
  obtain ⟨ha, hmid, hlog⟩ := h mark s hs
  have hrest := k _ _ hmid
  rw [hlog, List.append_assoc] at hrest
  subst ha
  exact hrest

theorem map {x : StateT Bool (StateM σ) α} {a : α} {ws : List ω} (k : α → β)
    (h : Writes J log x a ws) : Writes J log (x >>= fun a => Pure.pure (k a)) (k a) ws := by
  have hk := bind h (f := fun a => Pure.pure (k a)) (pure (k a))
  rwa [List.append_nil] at hk

variable {f : Node → Form β → β} {g : Node → Form γ → γ} {w : Node → List ω}

theorem part {onPart : β → StateT Bool (StateM σ) (Option γ)} {p : Option Node}
    (h : ∀ c ∈ p.toList, Writes J log (onPart (c.fold f)) (some (c.fold g)) (w c)) :
    Writes J log (match foldPart f p with | none => Pure.pure none | some b => onPart b)
      (foldPart g p) (p.toList.flatMap w) := by
  cases p with
  | none => exact pure none
  | some c => simpa [foldPart] using h c (by simp)

theorem list {onItem : β → StateT Bool (StateM σ) (Option γ)} {ns : List Node}
    (h : ∀ c ∈ ns, Writes J log (onItem (c.fold f)) (some (c.fold g)) (w c)) :
    Writes J log ((foldList f ns).filterMapM onItem) (foldList g ns) (ns.flatMap w) := by
  induction ns with
  | nil => exact pure []
  | cons c ns ih =>
    have hrest := ih fun d hd => h d (List.mem_cons_of_mem c hd)
    rw [foldList, foldList, List.filterMapM_cons, List.flatMap_cons]
    exact bind (h c List.mem_cons_self) (hrest.map _)

theorem sparse {onItem : β → StateT Bool (StateM σ) (Option γ)} {ps : List (Option Node)}
    (h : ∀ c ∈ ps.filterMap id, Writes J log (onItem (c.fold f)) (some (c.fold g)) (w c)) :
    Writes J log
      ((foldSparse f ps).filterMapM fun
        | none => Pure.pure (some none)
        | some b => return (← onItem b).map some)
      (foldSparse g ps) ((ps.filterMap id).flatMap w) := by
  induction ps with
  | nil => exact pure []
  | cons p ps ih =>
    rw [foldSparse, foldSparse, List.filterMapM_cons]
    cases p with
    | none =>
      have hrest := ih h
      have hhole : Writes J log (Pure.pure (some none)) (some (none : Option γ)) [] := pure _
      exact bind hhole (hrest.map _)
    | some c =>
      have hrest := ih fun d hd => h d (List.mem_cons_of_mem c hd)
      have hc := (h c List.mem_cons_self).map (Option.map some)
      exact bind hc (hrest.map _)

theorem editM {onPart onItem : β → StateT Bool (StateM σ) (Option γ)} {form : Form Node}
    (hpart : ∀ c ∈ form.parts, Writes J log (onPart (c.fold f)) (some (c.fold g)) (w c))
    (hitem : ∀ c ∈ form.parts, Writes J log (onItem (c.fold f)) (some (c.fold g)) (w c)) :
    Writes J log ((foldForm f form).editM onPart onItem) (foldForm g form)
      (form.parts.flatMap w) := by
  unfold Form.parts at hpart hitem ⊢
  rw [List.flatMap_assoc]
  cases form
  -- The actions run on the slots of a form in order, so there is one step for each slot.
  all_goals
    simp only [Form.slots, Slot.parts, List.flatMap_cons, List.flatMap_nil, List.append_nil,
      List.forall_mem_append] at hpart hitem
    try casesm* _ ∧ _
    simp only [foldForm, Form.slots, Slot.parts, List.flatMap_cons, List.flatMap_nil]
    repeat
      refine bind (by
        first
        | exact part (by assumption)
        | exact list (by assumption)
        | exact sparse (by assumption)) ?_
    exact pure _

end Writes

namespace Node

variable {σ ω : Type}

/-- What a pass over `n` has done that puts `n'` in its place and adds `ws` to the log. It reports
that `n` stays only if nothing has happened at all. -/
structure Turned (I : σ → Prop) (log : σ → List ω) (n n' : Node) (ws : List ω) (before : σ)
    (outcome : Outcome) (after : σ) : Prop where
  item : outcome.item? n = some n'
  invariant : I after
  logged : log after = log before ++ ws
  same : outcome = .same → after = before

/-- What a pass puts in the place of a node does not make it stay. -/
theorem Turned.of_replaced {I : σ → Prop} {log : σ → List ω} {n m n' : Node} {ws : List ω}
    {before after : σ} (hm : m = n') (hI : I after) (hlog : log after = log before ++ ws) :
    Turned I log n n' ws before (.replaced m) after := by
  refine ⟨congrArg some hm, hI, hlog, ?_⟩
  intro ho
  cases ho

/-- From every state that `I` allows, a pass over `n` puts `n'` in its place and adds `ws` to the
log. -/
def Turns (I : σ → Prop) (log : σ → List ω) (pass : StateM σ Outcome) (n n' : Node)
    (ws : List ω) : Prop :=
  ∀ s, I s → Turned I log n n' ws s (pass.run s).1 (pass.run s).2

variable {I : σ → Prop} {log : σ → List ω}

theorem part?_of_item? {n n' : Node} {o : Outcome} (h : o.item? n = some n') :
    o.part? n = some n' := by
  cases o with
  | same => exact h
  | replaced m => exact h
  | removed => cases h

theorem writes_passOver {pick : Node → Outcome → Option Node} {before : σ} {n n' : Node}
    {pass : StateM σ Outcome} {ws : List ω}
    (hpick : ∀ o : Outcome, o.item? n = some n' → pick n o = some n')
    (h : Turns I log pass n n' ws) :
    Writes (Unchanged I before) log (passOver pick (n, pass)) (some n') ws := by
  intro mark s hs
  obtain ⟨hitem, hI, hlog, hsame⟩ := h s hs.1
  refine ⟨hpick _ hitem, ⟨hI, ?_⟩, hlog⟩
  show (mark || !(pass.run s).1.isSame) = false → (pass.run s).2 = before
  intro hmark
  obtain ⟨hfirst, hkept⟩ := Bool.or_eq_false_iff.1 hmark
  have ho : (pass.run s).1 = .same := by
    cases hout : (pass.run s).1 <;> simp_all [Outcome.isSame]
  rw [hsame ho, hs.2 hfirst]

/-- A pass that turns each part of a node into what a fold makes of it turns the node into its
form with the folded parts. -/
theorem turns_descend {rule : Node → StateM σ Outcome → StateM σ Outcome}
    {g : Node → Form Node → Node} {w : Node → List ω} {n : Node}
    (h : ∀ c ∈ n.children, Turns I log (c.rewriteM rule) c (c.fold g) (w c))
    (hsame : ∀ c ∈ n.children, w c = [] → c.fold g = c) :
    Turns I log (descend n (n.childPasses rule)) n (n.withForm (foldForm g n.form))
      (n.children.flatMap w) := by
  intro s hs
  have hfold : ∀ c : Node, (c.fold fun n form => (n, rule n (descend n form))) =
      (c, c.rewriteM rule) := by
    intro c
    rw [fold_eq, rewriteM_eq]
    rfl
  have hpass : ∀ pick : Node → Outcome → Option Node,
      (∀ c m, ∀ o : Outcome, o.item? c = some m → pick c o = some m) →
      ∀ c ∈ n.form.parts, Writes (Unchanged I s) log
        (passOver pick (c.fold fun n form => (n, rule n (descend n form)))) (some (c.fold g))
        (w c) := by
    intro pick hpick c hc
    rw [hfold]
    exact writes_passOver (hpick c _) (h c hc)
  obtain ⟨hform, ⟨hI, hkept⟩, hlog⟩ := Writes.editM
    (hpass Outcome.part? fun c m o => part?_of_item?) (hpass Outcome.item? fun c m o ho => ho)
    false s ⟨hs, fun _ => rfl⟩
  rw [run_descend]
  unfold childPasses
  generalize (((foldForm _ n.form).editM (passOver Outcome.part?)
    (passOver Outcome.item?)).run false).run s = out at hform hI hkept hlog ⊢
  obtain ⟨⟨form, changed⟩, s'⟩ := out
  dsimp only at hform hI hkept hlog ⊢
  subst hform
  cases changed with
  | true =>
    exact .of_replaced rfl hI hlog
  | false =>
    have hs' : s' = s := hkept rfl
    -- Without a change nothing was added to the log, so each part is as it was.
    have hnone : n.children.flatMap w = [] := by
      rw [hs'] at hlog
      exact List.self_eq_append_right.1 hlog
    have hparts : foldForm g n.form = n.form := by
      apply foldForm_eq_self
      intro c hc
      exact hsame c hc (List.flatMap_eq_nil_iff.1 hnone c hc)
    refine ⟨?_, hI, hlog, fun _ => hs'⟩
    rw [hparts, withForm_self]
    rfl

end Node

end ModuleLowering
