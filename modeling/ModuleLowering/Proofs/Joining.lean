import ModuleLowering.Proofs.Publishing
import ModuleLowering.Proofs.Resuming

/-!
# Two modules one after the other

The statements of one module can be followed by those of another one on a new line. What the first
one leaves behind is as good as nothing: no bracket, announced scope or `do` is open, and the
terminator that ends its last statement is inserted there as it was at the end. So the lexemes of
the second module are read as they were on their own, and no statement of the first one goes on
with them.
-/

set_option autoImplicit false

namespace ModuleLowering

/-! ## What no statement starts with -/

namespace Parser

variable {α β : Type}

/-- A parser fails at a token, whatever comes behind the token. -/
def Refuses (t : Token) (p : Parser α) : Prop := ∀ ts r, p.run (t :: ts) ≠ .ok r

namespace Refuses

variable {t : Token} {p : Parser α} {f : α → Parser β} {k : Deeper}

theorem bind (h : Refuses t p) : Refuses t (p >>= f) := by
  intro ts r hr
  obtain ⟨a, mid, ha, -⟩ := run_bind_ok.1 hr
  exact h ts _ ha

theorem place {f : Option Position → Parser β} (h : ∀ s, Refuses t (f s)) :
    Refuses t (place >>= f) := fun ts => h _ ts

theorem look {f : Option Terminal → Parser β} (h : Refuses t (f (some t.terminal))) :
    Refuses t (look >>= f) := fun ts => h ts

theorem lookFurther {f : Option Terminal → Parser β} (h : ∀ u, Refuses t (f u)) :
    Refuses t (lookFurther >>= f) := fun ts => h _ ts

theorem takeIf {test : Terminal → Bool} (h : test t.terminal = false) :
    Refuses t (Parser.takeIf test) := by
  intro ts r hr
  rw [run_takeIf_cons, h] at hr
  cases hr

variable (ht : prolongs t.terminal = true)
include ht

theorem prolongs_cases : t.terminal = .word .kwElse ∨ t.terminal = .word .kwCatch ∨
    t.terminal = .word .kwFinally := by
  simpa [prolongs] using ht

theorem identifier : Refuses t identifier := by
  refine .bind (.takeIf ?_)
  rcases prolongs_cases ht with h | h | h <;> (rw [h]; rfl)

theorem primary : Refuses t (primary k) := by
  refine .place fun _ => .look ?_
  rcases prolongs_cases ht with h | h | h <;> (rw [h]; exact .bind (identifier ht))

theorem leftHandSide : Refuses t (leftHandSide k) := by
  refine .place fun _ => .bind (.look ?_)
  rcases prolongs_cases ht with h | h | h <;> (rw [h]; exact .bind (primary ht))

theorem update : Refuses t (update k) := by
  refine .place fun _ => .look ?_
  rcases prolongs_cases ht with h | h | h <;> (rw [h]; exact .bind (leftHandSide ht))

theorem exponent : Refuses t (exponent k) := by
  refine .place fun _ => .look ?_
  rcases prolongs_cases ht with h | h | h <;> (rw [h]; exact .bind (update ht))

theorem level (n : Nat) : Refuses t (level k n) := by
  induction n with
  | zero => exact exponent ht
  | succ n ih => exact .place fun _ => .bind ih

theorem conditional : Refuses t (conditional k) := .place fun _ => .bind (level ht _)

theorem assignment : Refuses t (assignment k) := by
  refine .place fun _ => .look ?_
  rcases prolongs_cases ht with h | h | h <;>
    (rw [h]; exact .lookFurther fun _ => .bind (conditional ht))

theorem statement : Refuses t (statement k) := by
  have hexpression : Refuses t (expressionStatement k) :=
    .place fun _ => .bind (.place fun _ => .bind (.bind (assignment ht)))
  refine .place fun _ => .look ?_
  rcases prolongs_cases ht with h | h | h <;> (rw [h]; exact .lookFurther fun _ => hexpression)

/-- What goes on with a statement starts no item of a module. -/
theorem item : Refuses t (item k) := by
  refine .look ?_
  rcases prolongs_cases ht with h | h | h <;> (rw [h]; exact statement ht)

end Refuses

end Parser

/-! ## The lexemes -/

namespace Scanner

variable {offset o : Nat} {position p : Position} {regex : Bool} {t u : Text}
  {ls ms : List Lexeme}

/-- The same text at another place has the same lexemes. -/
theorem Scans.shift (h : Scans offset position regex t ls) (hoffset : o = 0 ↔ offset = 0) :
    ∃ ms, Scans o p regex t ms ∧ List.Forall₂ Lexeme.Matches ls ms := by
  induction h generalizing o p with
  | done hspace =>
    rw [← decide_eq_decide.2 hoffset] at hspace
    exact ⟨[], .done hspace, .nil⟩
  | @cons offset position regex g rest l ls hstarts hplace _ _ ih =>
    obtain ⟨c, v, hv, -⟩ := hstarts.exists_cons
    have hlong : 0 < l.text.length := by
      rw [hv]
      exact Nat.succ_pos _
    obtain ⟨ms, hms, hmatches⟩ := ih (o := o + g.length + l.text.length)
      (p := (p.advance g).advance l.text) (by rw [Lexeme.endOffset]; omega)
    rw [← decide_eq_decide.2 hoffset] at hstarts
    exact ⟨_, .moved hstarts hms, .cons ⟨rfl, rfl, rfl⟩ hmatches⟩

end Scanner

/-! ## The module -/

theorem Parser.inOrder_eq_ok {xs : List (Shaped Node)} {ns : List Node} :
    inOrder xs = .ok ns ↔ xs = ns.map .ok := by
  unfold inOrder
  induction xs generalizing ns with
  | nil => cases ns <;> simp [pure, Except.pure]
  | cons x xs ih =>
    rw [List.mapM_cons]
    cases x with
    | error fault => cases ns <;> simp [bind, Except.bind]
    | ok n =>
      constructor
      · intro h
        obtain ⟨found, hfound, h⟩ : ∃ found, xs.mapM id = .ok found ∧ n :: found = ns := by
          cases hxs : xs.mapM (m := Shaped) id with
          | error fault => simp [bind, Except.bind, hxs] at h
          | ok found => exact ⟨found, rfl, by simpa [bind, Except.bind, hxs, pure, Except.pure] using h⟩
        rw [← h, ih.1 hfound, List.map_cons]
      · intro h
        obtain ⟨m, rest, rfl⟩ : ∃ m rest, ns = m :: rest := by cases ns <;> simp at h ⊢
        obtain ⟨h, hrest⟩ := List.cons_eq_cons.1 h
        cases h
        simp only [id, ih.2 hrest, bind, Except.bind, pure, Except.pure]

/-- The state behind the last lexeme of a text, as far as it has any. -/
def Terminators.behind (source : Text) : Terminators :=
  match Lexeme.scan source with
  | .ok lexemes => ({} : Terminators).through lexemes
  | .error _ => {}

end ModuleLowering
