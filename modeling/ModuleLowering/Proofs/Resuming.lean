import Mathlib.Data.List.Forall2
import ModuleLowering.Proofs.Explicit

/-!
# Reading on

Where a statement may start and nothing is open, the insertion of terminators reads what comes next
as it reads the start of a module. So the tokens of two lists of lexemes, one after the other, are
those of the first list and then those of the second one.
-/

set_option autoImplicit false

namespace ModuleLowering

namespace Terminators

/-! ## States that read alike -/

open Terminal (word punctuator)

/-- Nothing is open, and a statement may start. -/
structure Fresh (s : Terminators) : Prop where
  scopes : s.scopes = []
  announced : s.announced = []
  dos : s.dos = []
  due : s.doConditionDue = false
  label : s.labelOpen = false
  previous : s.previous = none ∨ s.previous = some .terminator ∨
    s.previous = some (punctuator .rightBrace) ∧
      (s.previousScope.map Scope.endsExpression).getD false = false

namespace Fresh

variable {s : Terminators} (h : s.Fresh)
include h

theorem mayEnd : s.mayEnd = false := by
  rcases h.previous with hs | hs | ⟨hs, hscope⟩
  · simp [Terminators.mayEnd, hs]
  · simp [Terminators.mayEnd, hs, endsStatement]
  · simp [Terminators.mayEnd, hs, hscope]

theorem needsTerminator (l : Lexeme) : s.needsTerminator l = false := by
  rcases h.previous with hs | hs | ⟨hs, -⟩ <;>
    simp [Terminators.needsTerminator, hs, h.mayEnd]

theorem atStatementStart : s.atStatementStart = true := by
  rcases h.previous with hs | hs | ⟨hs, hscope⟩
  · simp [Terminators.atStatementStart, afterBlockOpener, hs]
  · simp [Terminators.atStatementStart, afterBlockOpener, hs]
  · simp [Terminators.atStatementStart, afterBlock, hs, hscope]

theorem unannouncedScope : s.unannouncedScope = .block := by
  rcases h.previous with hs | hs | ⟨hs, hscope⟩
  · simp [Terminators.unannouncedScope, afterBlockOpener, hs]
  · simp [Terminators.unannouncedScope, afterBlockOpener, hs]
  · simp [Terminators.unannouncedScope, afterBlock, hs, hscope]

theorem afterHeadWord : s.afterHeadWord = false := by
  rcases h.previous with hs | hs | ⟨hs, -⟩ <;> simp [Terminators.afterHeadWord, hs]

theorem previous_ne_word (w : Word) : s.previous ≠ some (word w) := by
  rcases h.previous with hs | hs | ⟨hs, -⟩ <;> simp [hs]

theorem wordOf (text : Text) (follow : Option Lexeme) : s.wordOf text follow = Word.ofText? text := by
  rcases h.previous with hs | hs | ⟨hs, -⟩ <;> simp [Terminators.wordOf, hs, h.scopes]

end Fresh

/-- Two states that read the same lexemes as the same tokens: what they differ in is not asked
for. -/
structure Like (s u : Terminators) : Prop where
  scopes : s.scopes = u.scopes
  announced : s.announced = u.announced
  dos : s.dos = u.dos
  due : s.doConditionDue = u.doConditionDue
  label : s.labelOpen = u.labelOpen
  behind : s.Fresh ∧ u.Fresh ∨
    s.previous = u.previous ∧ s.previousScope = u.previousScope ∧ s.afterLabel = u.afterLabel ∧
      (s.previous = some (word .kwAsync) → s.asyncAtStart = u.asyncAtStart) ∧
      ∀ w : Word, s.beforePrevious = some (word w) ↔ u.beforePrevious = some (word w)

namespace Like

variable {s u : Terminators} (h : s.Like u)
include h

theorem inStatements : s.inStatements = u.inStatements := by
  unfold Terminators.inStatements
  rw [h.scopes]

theorem mayEnd : s.mayEnd = u.mayEnd := by
  rcases h.behind with ⟨hs, hu⟩ | ⟨hprevious, hscope, -⟩
  · rw [hs.mayEnd, hu.mayEnd]
  · unfold Terminators.mayEnd
    rw [hprevious, hscope]

theorem needsTerminator (l : Lexeme) : s.needsTerminator l = u.needsTerminator l := by
  rcases h.behind with ⟨hs, hu⟩ | ⟨hprevious, hscope, -⟩
  · rw [hs.needsTerminator, hu.needsTerminator]
  · unfold Terminators.needsTerminator startsStatement
    rw [h.inStatements, h.mayEnd, hprevious, hscope]

theorem previous_word (w : Word) : s.previous = some (word w) ↔ u.previous = some (word w) := by
  rcases h.behind with ⟨hs, hu⟩ | ⟨hprevious, -⟩
  · exact iff_of_false (hs.previous_ne_word w) (hu.previous_ne_word w)
  · rw [hprevious]

theorem atStatementStart : s.atStatementStart = u.atStatementStart := by
  rcases h.behind with ⟨hs, hu⟩ | ⟨hprevious, hscope, hlabel, -, hbefore⟩
  · rw [hs.atStatementStart, hu.atStatementStart]
  · unfold Terminators.atStatementStart afterBlockOpener afterBlock
    simp only [hprevious, hscope, hlabel, hbefore]

theorem afterHeadWord : s.afterHeadWord = u.afterHeadWord := by
  rcases h.behind with ⟨hs, hu⟩ | ⟨hprevious, -, -, -, hbefore⟩
  · rw [hs.afterHeadWord, hu.afterHeadWord]
  · unfold Terminators.afterHeadWord
    simp only [hprevious, hbefore]

theorem wordOf (text : Text) (follow : Option Lexeme) :
    s.wordOf text follow = u.wordOf text follow := by
  rcases h.behind with ⟨hs, hu⟩ | ⟨hprevious, -⟩
  · rw [hs.wordOf, hu.wordOf]
  · unfold Terminators.wordOf afterPropertyOpener afterMemberOpener
    rw [hprevious, h.scopes]

theorem braceScope : s.braceScope = u.braceScope := by
  have hscope : s.unannouncedScope = u.unannouncedScope := by
    rcases h.behind with ⟨hs, hu⟩ | ⟨hprevious, hscope, hlabel, -⟩
    · rw [hs.unannouncedScope, hu.unannouncedScope]
    · unfold Terminators.unannouncedScope afterBlockOpener afterBlock
      rw [hprevious, hscope, hlabel]
  unfold Terminators.braceScope
  rw [hscope, h.announced, h.scopes]

theorem remember {t : Terminal} (ht : t ≠ word .kwAsync) (scope : Option Scope) :
    (s.remember t scope).Like (u.remember t scope) :=
  ⟨h.scopes, h.announced, h.dos, h.due, h.label,
    .inr ⟨rfl, rfl, rfl, fun h => absurd (Option.some.inj h) ht, h.previous_word⟩⟩

theorem announce (w : Word) (hw : w ≠ .kwAsync) (scope : Scope) :
    (s.announce w scope).Like (u.announce w scope) :=
  ⟨h.scopes, congrArg₂ (fun scopes announced => (List.length scopes, scope) :: announced) h.scopes
      h.announced, h.dos, h.due, h.label,
    .inr ⟨rfl, rfl, rfl, fun h => absurd (Terminal.word.inj (Option.some.inj h)) hw, h.previous_word⟩⟩

theorem readWord (w : Word) :
    (s.readWord w).1 = (u.readWord w).1 ∧ (s.readWord w).2.Like (u.readWord w).2 := by
  have hdeclares : (if s.previous = some (word .kwAsync) then s.asyncAtStart
      else s.atStatementStart) =
      if u.previous = some (word .kwAsync) then u.asyncAtStart else u.atStatementStart := by
    by_cases hasync : s.previous = some (word .kwAsync)
    · rw [if_pos hasync, if_pos ((h.previous_word _).1 hasync)]
      rcases h.behind with ⟨hs, -⟩ | ⟨-, -, -, hsame, -⟩
      · exact absurd hasync (hs.previous_ne_word _)
      · exact hsame hasync
    · rw [if_neg hasync, if_neg fun hu => hasync ((h.previous_word _).2 hu), h.atStatementStart]
  have hcloses : (s.dos.head? = some s.scopes.length &&
      (s.previous = some (punctuator .rightBrace) || s.previous = some .terminator)) =
      (u.dos.head? = some u.scopes.length &&
      (u.previous = some (punctuator .rightBrace) || u.previous = some .terminator)) := by
    rcases h.behind with ⟨hs, hu⟩ | ⟨hprevious, -⟩
    · simp [hs.dos, hu.dos]
    · rw [h.dos, h.scopes, hprevious]
  cases w
  case kwFunction =>
    simp only [Terminators.readWord, if_true, hdeclares]
    exact ⟨trivial, h.announce _ (by decide) _⟩
  case kwClass =>
    simp only [Terminators.readWord, reduceCtorEq, if_false, hdeclares]
    exact ⟨trivial, h.announce _ (by decide) _⟩
  case kwWhile =>
    simp only [Terminators.readWord, hcloses]
    refine ⟨trivial, ?_⟩
    split
    · exact ⟨h.scopes, h.announced, congrArg List.tail h.dos, rfl, h.label,
        .inr ⟨rfl, rfl, rfl, (fun hasync => by cases hasync), h.previous_word⟩⟩
    · exact h.remember (by decide) none
  case kwCase | kwDefault =>
    all_goals
      have hlabels : (s.inStatements && s.previous ≠ some (word .kwExport)) =
          (u.inStatements && u.previous ≠ some (word .kwExport)) := by
        rw [h.inStatements]
        simp only [ne_eq, h.previous_word]
      refine ⟨rfl, h.scopes, h.announced, h.dos, h.due, ?_,
        .inr ⟨rfl, rfl, rfl, (fun hasync => by cases hasync), h.previous_word⟩⟩
      simp only [Terminators.readWord, Terminators.remember, h.label, hlabels]
  case kwDo =>
    exact ⟨rfl, h.scopes, h.announced, congrArg₂ (fun scopes dos => List.length scopes :: dos)
      h.scopes h.dos, h.due, h.label,
      .inr ⟨rfl, rfl, rfl, (fun hasync => by cases hasync), h.previous_word⟩⟩
  case kwAsync =>
    exact ⟨rfl, h.scopes, h.announced, h.dos, h.due, h.label,
      .inr ⟨rfl, rfl, rfl, fun _ => h.atStatementStart, h.previous_word⟩⟩
  all_goals exact ⟨rfl, h.remember (by decide) none⟩

theorem readPunctuator {p : Punctuator} {t : Terminal} {next : Terminators}
    (hread : s.readPunctuator p = .ok (t, next)) :
    ∃ next', u.readPunctuator p = .ok (t, next') ∧ next.Like next' := by
  have hclose : ∀ p, s.closeScope p = .ok (t, next) →
      ∃ next', u.closeScope p = .ok (t, next') ∧ next.Like next' := by
    intro p hp
    unfold closeScope at hp ⊢
    rw [← h.scopes]
    split at hp
    · cases hp
    · split at hp
      · rename_i hcloser
        cases hp
        exact ⟨_, if_pos hcloser, rfl, h.announced, h.dos, h.due, h.label,
          .inr ⟨rfl, rfl, rfl, (fun hasync => by cases hasync), h.previous_word⟩⟩
      · cases hp
  cases p
  case leftBrace =>
    simp only [Terminators.readPunctuator, h.braceScope, Except.ok.injEq, Prod.mk.injEq] at hread ⊢
    obtain ⟨rfl, rfl⟩ := hread
    refine ⟨_, ⟨rfl, rfl⟩, congrArg (List.cons _) h.scopes, rfl, h.dos, h.due, h.label,
      .inr ⟨rfl, rfl, rfl, fun hasync => ?_, h.previous_word⟩⟩
    have hbrace := Option.some.inj hasync
    split at hbrace <;> cases hbrace
  case leftParen =>
    simp only [Terminators.readPunctuator, h.afterHeadWord, h.due] at hread ⊢
    cases hread
    exact ⟨_, rfl, congrArg (List.cons _) h.scopes, h.announced, h.dos, rfl, h.label,
      .inr ⟨rfl, rfl, rfl, (fun hasync => by cases hasync), h.previous_word⟩⟩
  case leftBracket =>
    cases hread
    exact ⟨_, rfl, congrArg (List.cons _) h.scopes, h.announced, h.dos, h.due, h.label,
      .inr ⟨rfl, rfl, rfl, (fun hasync => by cases hasync), h.previous_word⟩⟩
  case rightBrace | rightParen | rightBracket => all_goals exact hclose _ hread
  case semicolon =>
    simp only [Terminators.readPunctuator, h.inStatements] at hread ⊢
    split at hread
    · cases hread
      exact ⟨_, if_pos ‹_›, h.remember (by decide) none⟩
    · cases hread
      exact ⟨_, if_neg ‹_›, h.remember (by decide) none⟩
  case colon =>
    simp only [Terminators.readPunctuator, h.label] at hread ⊢
    split at hread
    · cases hread
      exact ⟨_, if_pos ‹_›, h.scopes, h.announced, h.dos, h.due, rfl,
        .inr ⟨rfl, rfl, rfl, (fun hasync => by cases hasync), h.previous_word⟩⟩
    · cases hread
      exact ⟨_, if_neg ‹_›, h.remember (by decide) none⟩
  all_goals
    cases hread
    refine ⟨_, rfl, h.remember ?_ none⟩
    decide

theorem read {l m : Lexeme} {follow follow' : Option Lexeme} {t : Terminal} {next : Terminators}
    (hkind : l.kind = m.kind) (htext : l.text = m.text)
    (hfollow : Option.Rel Lexeme.Matches follow follow') (hread : s.read l follow = .ok (t, next)) :
    ∃ next', u.read m follow' = .ok (t, next') ∧ next.Like next' := by
  have hword : s.wordOf l.text follow = u.wordOf m.text follow' := by
    rw [htext, h.wordOf, wordOf_matches hfollow]
  unfold Terminators.read at hread ⊢
  rw [hkind] at hread
  split at hread
  case h_5 =>
    rw [hword] at hread
    split at hread
    · cases hread
      exact ⟨_, rfl, h.remember (by decide) none⟩
    · rename_i w hw
      obtain ⟨hterminal, hlike⟩ := h.readWord w
      rw [Except.ok.inj hread] at hterminal hlike
      exact ⟨(u.readWord w).2, congrArg Except.ok (Prod.ext hterminal.symm rfl), hlike⟩
  case h_6 => exact h.readPunctuator hread
  all_goals
    cases hread
    refine ⟨_, rfl, h.remember ?_ none⟩
    decide

omit h in
/-- Lexemes that match are read as tokens that match. -/
theorem tokens {last last' : Option Lexeme} {ls ms : List Lexeme} {ts : List Token}
    (h : s.Like u) (hms : List.Forall₂ Lexeme.Matches ls ms) (hlast : last' = none ↔ last = none)
    (hts : s.tokens last ls = ⟨ts, none⟩) :
    ∃ us, u.tokens last' ms = ⟨us, none⟩ ∧ Continues [] ts us := by
  induction hms generalizing s u last last' ts with
  | nil =>
    cases last with
    | none =>
      rw [hlast.2 rfl]
      cases hts
      exact ⟨[], rfl, .nil⟩
    | some l =>
      obtain ⟨l', rfl⟩ := Option.ne_none_iff_exists'.1 fun h => nomatch hlast.1 h
      obtain ⟨hscopes, rfl⟩ := finish_eq_ok.1 hts
      refine ⟨_, finish_eq_ok.2 ⟨h.scopes.symm.trans hscopes, rfl⟩, ?_⟩
      rw [h.mayEnd]
      split
      · exact .cons ⟨rfl, fun h => absurd rfl h⟩ .nil
      · exact .nil
  | @cons l m ls ms hlm hms ih =>
    obtain ⟨t, next, rest, hread, hrest, rfl⟩ := tokens_cons_eq_ok.1 hts
    have hneeded : s.needsTerminator l = u.needsTerminator m :=
      (h.needsTerminator l).trans (needsTerminator_matches hlm u)
    have hfollow : Option.Rel Lexeme.Matches ls.head? ms.head? := by
      cases hms with
      | nil => exact .none
      | cons hlm _ => exact .some hlm
    have hlike : (if u.needsTerminator m then s.remember .terminator none else s).Like
        (if u.needsTerminator m then u.remember .terminator none else u) := by
      split
      · exact h.remember (by decide) none
      · exact h
    rw [hneeded] at hread ⊢
    obtain ⟨next', hread', hnext⟩ := hlike.read hlm.kind hlm.text hfollow hread
    obtain ⟨us, hus, hcontinues⟩ :=
      ih hnext (iff_of_false (Option.some_ne_none m) (Option.some_ne_none l)) hrest
    refine ⟨_, tokens_cons_eq_ok.2 ⟨t, next', us, hread', hus, rfl⟩, ?_⟩
    have htail : Continues [] (tokenOf t l :: rest) (tokenOf t m :: us) :=
      .cons ⟨rfl, fun _ => hlm.text⟩ hcontinues
    split
    · exact .cons ⟨rfl, fun h => absurd rfl h⟩ htail
    · exact htail

end Like

/-! ## Where a list of lexemes ends -/

section

variable {s s' next : Terminators} {l m : Lexeme} {last : Option Lexeme} {ls ms : List Lexeme}
  {ts us : List Token}

/-- The state behind a list of lexemes, as far as they can be read. -/
def through (s : Terminators) : List Lexeme → Terminators
  | [] => s
  | l :: rest =>
    let s := if s.needsTerminator l then s.remember .terminator none else s
    match s.read l rest.head? with
    | .error _ => s
    | .ok (_, next) => next.through rest

/-- The state behind the terminator that ends the last statement. -/
def ended (s : Terminators) : Terminators := if s.mayEnd then s.remember .terminator none else s

end

/-! ## A new line -/

/-- Where nothing is open, a statement may start behind the terminator that ends the last one. -/
theorem Settled.fresh {s : Terminators} (h : s.ended.Settled Frame.outermost) : s.ended.Fresh where
  scopes := h.scopes
  announced := h.announced
  dos := h.dos
  due := h.due
  label := by simpa [Frame.outermost] using h.label
  previous := by
    cases hend : s.mayEnd with
    | true =>
      rw [ended, if_pos hend]
      exact .inr (.inl rfl)
    | false =>
      have hprevious := h.previous
      rw [ended, hend] at hprevious ⊢
      refine hprevious.imp_right (Or.imp_right fun hbrace => ⟨hbrace, ?_⟩)
      simp only [Bool.false_eq_true, if_false] at hbrace ⊢
      simpa [mayEnd, hbrace] using hend

end Terminators

end ModuleLowering
