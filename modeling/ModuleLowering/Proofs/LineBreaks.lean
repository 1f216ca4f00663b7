import ModuleLowering.Proofs.SlashesAndBraces

/-!
# Operands on the next line

Some words take an operand only if it stands on their own line, and so do the operators that stand
behind theirs. Two tokens are kept apart by a terminator between them. It is said here of every
stream of tokens where one is inserted: behind `return`, `break` and `continue` and before `++` and
`--` it is, but only among statements, and behind `yield` it never is.
-/

set_option autoImplicit false

namespace ModuleLowering

namespace Terminators

open Terminal (word punctuator)

variable {s : Terminators} {l r : Lexeme} {last : Option Lexeme} {before rest : List Lexeme}
  {ts : List Token} {w : Word}

/-- The words that end a statement at a line break. -/
def restricted : List Word := [.kwReturn, .kwBreak, .kwContinue]

/-- Of two neighbours the second is read behind the token of the first, and behind a terminator if
one is needed there. -/
theorem tokens_neighbours_eq_ok (hs : s.AnnouncesBodies)
    (h : s.tokens last (before ++ l :: r :: rest) = ⟨ts, none⟩) :
    ∃ us t u vs, ts = us ++ tokenOf t l ::
      ((if ((s.afterAll us).after t).needsTerminator r then [insertedBefore r] else []) ++
        tokenOf u r :: vs) := by
  obtain ⟨us, t, vs, rfl, -, -, hrest⟩ := tokens_append_eq_ok hs h
  obtain ⟨u, next, vs, -, -, rfl⟩ := tokens_cons_eq_ok.1 hrest
  exact ⟨us, t, u, vs, rfl⟩

/-- These words leave the scopes as they are. -/
theorem after_restricted (hw : w ∈ restricted ∨ w = .kwYield) :
    s.after (word w) = s.remember (word w) none := by
  rcases hw with hw | rfl
  · simp only [restricted, List.mem_cons, List.not_mem_nil, or_false] at hw
    rcases hw with rfl | rfl | rfl <;> rfl
  · rfl

/-- On a new line something else begins behind `return`, `break` and `continue`. -/
theorem needsTerminator_restricted (hw : w ∈ restricted) (hr : r.lineBreakBefore = true) :
    (s.after (word w)).needsTerminator r = s.inStatements := by
  have hin : (s.remember (word w) none).inStatements = s.inStatements := rfl
  rw [after_restricted (.inl hw), needsTerminator, hin]
  simp only [restricted, List.mem_cons, List.not_mem_nil, or_false] at hw
  rcases hw with rfl | rfl | rfl <;> cases s.inStatements <;>
    simp [remember, mayEnd, endsStatement, hr]

/-- Whatever stands behind `yield` goes on with it. -/
theorem needsTerminator_yield : (s.after (word .kwYield)).needsTerminator r = false := by
  rw [after_restricted (.inr rfl), needsTerminator]
  simp [remember, mayEnd, endsStatement, Word.isContextual]

/-- Among statements an operator on a new line does not stand behind what may end one. -/
theorem needsTerminator_operator (hs : s.mayEnd = true) (hr : r.lineBreakBefore = true)
    (hkind : r.kind = .punctuator .increment ∨ r.kind = .punctuator .decrement) :
    s.needsTerminator r = s.inStatements := by
  have hprevious : s.previous.isNone = false := by
    cases h : s.previous with
    | none => simp [mayEnd, h] at hs
    | some t => rfl
  have hstarts : s.startsStatement r = true := by
    rcases hkind with hkind | hkind <;> simp [startsStatement, hkind, continuesLine]
  rw [needsTerminator, hprevious, hs, hstarts, hr]
  rcases hkind with hkind | hkind <;> cases s.inStatements <;> simp [hkind]

end Terminators

/-- Between two neighbours of which the second stands on a new line, a terminator is inserted
directly among statements if the first is `return`, `break` or `continue`, or if the second is `++`
or `--` and the first may end a statement. Behind `yield` none is inserted. -/
theorem TokenStream.behind_line_break {l r : Lexeme} {before rest : List Lexeme} {ts : List Token}
    (hts : ofLexemes (before ++ l :: r :: rest) = ⟨ts, none⟩) (hr : r.lineBreakBefore = true) :
    ∃ us t inserted u vs,
      ts = us ++ Terminators.tokenOf t l :: (inserted ++ Terminators.tokenOf u r :: vs) ∧
        (∀ w ∈ Terminators.restricted, t = .word w → inserted =
          if (({} : Terminators).afterAll us).inStatements then [Terminators.insertedBefore r]
          else []) ∧
        (t = .word .kwYield → inserted = []) ∧
        (r.kind = .punctuator .increment ∨ r.kind = .punctuator .decrement →
          ((({} : Terminators).afterAll us).after t).mayEnd = true → inserted =
            if ((({} : Terminators).afterAll us).after t).inStatements then
              [Terminators.insertedBefore r]
            else []) := by
  obtain ⟨us, t, u, vs, rfl⟩ := Terminators.tokens_neighbours_eq_ok (s := {}) nofun hts
  refine ⟨us, t, _, u, vs, rfl, ?_, ?_, ?_⟩
  · rintro w hw rfl
    rw [Terminators.needsTerminator_restricted hw hr]
  · rintro rfl
    rw [Terminators.needsTerminator_yield, if_neg Bool.false_ne_true]
  · intro hkind hends
    rw [Terminators.needsTerminator_operator hends hr hkind]

end ModuleLowering
