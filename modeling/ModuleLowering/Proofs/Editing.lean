import Mathlib.Tactic.CasesM
import ModuleLowering.Proofs.Occurrences

/-!
# Laws of rebuilding

Rebuilding a form runs an action on each of its parts. An invariant of the actions is one of the
whole, the form stays of its kind, and each part of the new form is what an action made of a part
of the old one. A pass over the parts of a node that leaves each of them as it was leaves the node
as it was.
-/

set_option autoImplicit false

namespace ModuleLowering

/-- Each element of a list comes from an element of another one. -/
def ComesFrom {α β : Type} (R : α → β → Prop) (before : List α) (after : List β) : Prop :=
  ∀ b ∈ after, ∃ a ∈ before, R a b

namespace ComesFrom

variable {α β : Type} {R : α → β → Prop}

theorem nil {before : List α} : ComesFrom R before [] := by
  intro b hb
  exact absurd hb List.not_mem_nil

theorem singleton {a : α} {b : β} (h : R a b) : ComesFrom R [a] [b] := by
  intro c hc
  rw [List.mem_singleton.1 hc]
  exact ⟨a, List.mem_singleton.2 rfl, h⟩

theorem append {before before' : List α} {after after' : List β} (h : ComesFrom R before after)
    (h' : ComesFrom R before' after') : ComesFrom R (before ++ before') (after ++ after') := by
  intro b hb
  rcases List.mem_append.1 hb with hb | hb
  · obtain ⟨a, ha, hab⟩ := h b hb
    exact ⟨a, List.mem_append_left _ ha, hab⟩
  · obtain ⟨a, ha, hab⟩ := h' b hb
    exact ⟨a, List.mem_append_right _ ha, hab⟩

end ComesFrom

/-- An action on a state and a mark keeps an invariant, and its value is as `Q` says. -/
def Keeps {σ α : Type} (J : Bool → σ → Prop) (action : StateT Bool (StateM σ) α) (Q : α → Prop) :
    Prop :=
  ∀ mark s, J mark s →
    J ((action.run mark).run s).1.2 ((action.run mark).run s).2 ∧ Q ((action.run mark).run s).1.1

namespace Keeps

variable {σ α β : Type} {J : Bool → σ → Prop} {R : α → β → Prop}

theorem pure {Q : α → Prop} {a : α} (h : Q a) :
    Keeps J (Pure.pure a : StateT Bool (StateM σ) α) Q := by
  intro mark s hs
  exact ⟨hs, h⟩

theorem bind {Q : α → Prop} {P : β → Prop} {x : StateT Bool (StateM σ) α}
    {f : α → StateT Bool (StateM σ) β} (h : Keeps J x Q) (k : ∀ a, Q a → Keeps J (f a) P) :
    Keeps J (x >>= f) P := by
  intro mark s hs
  obtain ⟨hmid, hq⟩ := h mark s hs
  exact k _ hq _ _ hmid

/-- Rebuilding an optional part. -/
theorem part {onPart : α → StateT Bool (StateM σ) (Option β)} {p : Option α}
    (h : ∀ a ∈ p.toList, Keeps J (onPart a) fun o => ∀ b ∈ o, R a b) :
    Keeps J (match p with | none => Pure.pure none | some a => onPart a) fun o =>
      ComesFrom R p.toList o.toList := by
  cases p with
  | none => exact pure ComesFrom.nil
  | some a =>
    intro mark s hs
    obtain ⟨hmid, hq⟩ := h a (by simp) mark s hs
    refine ⟨hmid, ?_⟩
    intro b hb
    exact ⟨a, by simp, hq b (Option.mem_toList.1 hb)⟩

/-- Rebuilding a list of parts. -/
theorem list {onItem : α → StateT Bool (StateM σ) (Option β)} {items : List α}
    (h : ∀ a ∈ items, Keeps J (onItem a) fun o => ∀ b ∈ o, R a b) :
    Keeps J (items.filterMapM onItem) fun out => ComesFrom R items out := by
  induction items with
  | nil => exact pure ComesFrom.nil
  | cons a items ih =>
    rw [List.filterMapM_cons]
    refine bind (h a List.mem_cons_self) fun o ho => ?_
    have hrest := ih fun b hb => h b (List.mem_cons_of_mem _ hb)
    cases o with
    | none =>
      intro mark s hs
      obtain ⟨hmid, hfrom⟩ := hrest mark s hs
      exact ⟨hmid, (ComesFrom.nil : ComesFrom _ [_] []).append hfrom⟩
    | some b =>
      refine bind hrest fun out hfrom => pure ?_
      exact (ComesFrom.singleton (ho b rfl)).append hfrom

/-- Rebuilding a list of parts, of which those in front each become what `stay` says. -/
theorem filterMapM_append {onItem : α → StateT Bool (StateM σ) (Option β)} (stay : α → β)
    {front items : List α} (hfront : ∀ a ∈ front, Keeps J (onItem a) fun o => o = some (stay a))
    (h : ∀ a ∈ items, Keeps J (onItem a) fun o => ∀ b ∈ o, R a b) :
    Keeps J ((front ++ items).filterMapM onItem) fun out =>
      ∃ rest, out = front.map stay ++ rest ∧ ComesFrom R items rest := by
  induction front with
  | nil =>
    intro mark s hs
    obtain ⟨hmid, hfrom⟩ := list h mark s hs
    exact ⟨hmid, _, rfl, hfrom⟩
  | cons a front ih =>
    rw [List.cons_append, List.filterMapM_cons]
    refine bind (hfront a List.mem_cons_self) fun o ho => ?_
    subst ho
    refine bind (ih fun b hb => hfront b (List.mem_cons_of_mem _ hb)) fun out hout => pure ?_
    obtain ⟨rest, rfl, hfrom⟩ := hout
    exact ⟨rest, rfl, hfrom⟩

/-- Rebuilding a list of parts with holes. -/
theorem sparse {onItem : α → StateT Bool (StateM σ) (Option β)} {items : List (Option α)}
    (h : ∀ a ∈ items.filterMap id, Keeps J (onItem a) fun o => ∀ b ∈ o, R a b) :
    Keeps J
      (items.filterMapM fun
        | none => Pure.pure (some none)
        | some a => return (← onItem a).map some)
      fun out => ComesFrom R (items.filterMap id) (out.filterMap id) := by
  induction items with
  | nil => exact pure ComesFrom.nil
  | cons p items ih =>
    rw [List.filterMapM_cons]
    cases p with
    | none =>
      have hrest := ih h
      refine bind (pure (Q := fun o => o = some none) rfl) fun o ho => ?_
      subst ho
      exact bind hrest fun out hfrom => pure hfrom
    | some a =>
      have hrest := ih fun b hb => h b (List.mem_cons_of_mem _ hb)
      have ha := h a List.mem_cons_self
      refine bind (Q := fun o => ∀ p ∈ o, ∃ b, p = some b ∧ R a b)
        (bind ha fun o ho => pure ?_) fun o ho => ?_
      · intro p hp
        obtain ⟨b, hb, rfl⟩ := Option.map_eq_some_iff.1 hp
        exact ⟨b, rfl, ho b hb⟩
      · cases o with
        | none =>
          intro mark s hs
          obtain ⟨hmid, hfrom⟩ := hrest mark s hs
          exact ⟨hmid, (ComesFrom.nil : ComesFrom _ [_] []).append hfrom⟩
        | some p =>
          obtain ⟨b, rfl, hab⟩ := ho p rfl
          refine bind hrest fun out hfrom => pure ?_
          exact (ComesFrom.singleton hab).append hfrom

/-- Rebuilding a form. -/
theorem editM {onPart onItem : α → StateT Bool (StateM σ) (Option β)} {form : Form α}
    (hpart : ∀ a ∈ form.parts, Keeps J (onPart a) fun o => ∀ b ∈ o, R a b)
    (hitem : ∀ a ∈ form.parts, Keeps J (onItem a) fun o => ∀ b ∈ o, R a b) :
    Keeps J (form.editM onPart onItem) fun form' =>
      form'.identifier? = form.identifier? ∧ ComesFrom R form.parts form'.parts := by
  cases form
  -- The actions run on the slots of a form in order, so there is one step for each slot.
  all_goals
    try simp only [Form.parts, Form.slots, Slot.parts, List.flatMap_cons, List.flatMap_nil,
      List.append_nil, List.forall_mem_append] at hpart hitem
    try casesm* _ ∧ _
    repeat
      refine bind (by
        first
        | exact part (by assumption)
        | exact list (by assumption)
        | exact sparse (by assumption)) fun _ _ => ?_
    refine pure ⟨rfl, ?_⟩
    repeat refine ComesFrom.append (by assumption) ?_
    exact ComesFrom.nil

end Keeps

end ModuleLowering
