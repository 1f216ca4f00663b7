import ModuleLowering.Proofs.Insertion

/-!
# Matching brackets

The scopes that are kept while tokens are read are of nine kinds, but there are three pairs of
brackets. What closes a scope is all that counts for the brackets: the closing brackets that are due
change with each lexeme as the brackets alone demand, whatever kind of scope was chosen. So a stream
ends well if and only if the brackets of its lexemes are nested, and else it stops at the first
closing bracket that is not due, or at the end, where brackets are left open.
-/

set_option autoImplicit false

namespace ModuleLowering

/-! ## Nested brackets -/

/-- What closes an opening bracket. -/
def Punctuator.closer? : Punctuator → Option Punctuator
  | .leftBrace => some .rightBrace
  | .leftParen => some .rightParen
  | .leftBracket => some .rightBracket
  | _ => none

/-- Whether a punctuator is a closing bracket. -/
def Punctuator.isCloser (p : Punctuator) : Bool :=
  p = .rightBrace || p = .rightParen || p = .rightBracket

namespace Lexeme

/-- What closes the bracket that a lexeme opens, if it opens one. -/
def closer? (l : Lexeme) : Option Punctuator := l.punctuator?.bind Punctuator.closer?

/-- The closing bracket that a lexeme is, if it is one. -/
def closing? (l : Lexeme) : Option Punctuator := l.punctuator?.filter Punctuator.isCloser

/-- Rows of lexemes in which each bracket has its counterpart, one pair inside another or behind
it. -/
inductive Nested : List Lexeme → Prop where
  | nil : Nested []
  | cons {l : Lexeme} {ls : List Lexeme} : l.closer? = none → l.closing? = none → Nested ls →
      Nested (l :: ls)
  | pair {l m : Lexeme} {p : Punctuator} {inner ls : List Lexeme} : l.closer? = some p →
      m.closing? = some p → Nested inner → Nested ls → Nested (l :: (inner ++ m :: ls))

/-- Rows of lexemes that close no other bracket than the innermost open one, and leave some open:
`due` is what would close these, innermost first. -/
inductive LeavesDue : List Punctuator → List Lexeme → Prop where
  | nested {ls : List Lexeme} : Nested ls → LeavesDue [] ls
  | opening {due : List Punctuator} {l : Lexeme} {p : Punctuator} {before ls : List Lexeme} :
      LeavesDue due before → l.closer? = some p → Nested ls →
      LeavesDue (p :: due) (before ++ l :: ls)

/-- The first closing bracket that closes nothing, or not the innermost open bracket, is `p` and
stands at `place`. -/
def Unbalanced (ls : List Lexeme) (p : Punctuator) (place : Position) : Prop :=
  ∃ before l after due, ls = before ++ l :: after ∧ LeavesDue due before ∧
    l.closing? = some p ∧ due.head? ≠ some p ∧ l.start = place

/-- Each closing bracket closes the innermost open one, but the one that `p` would close is left
open at the end of the last lexeme, at `place`. -/
def Unclosed (ls : List Lexeme) (p : Punctuator) (place : Position) : Prop :=
  ∃ due l, LeavesDue (p :: due) ls ∧ ls.getLast? = some l ∧ l.finish = place

variable {l : Lexeme} {ls before after inner : List Lexeme} {due due' : List Punctuator}
  {p : Punctuator}

/-- No bracket opens and closes. -/
theorem closer?_of_closing? (h : l.closing? = some p) : l.closer? = none := by
  obtain ⟨hp, hcloser⟩ := Option.filter_eq_some_iff.1 h
  rw [closer?, hp, Option.bind_some]
  cases p <;> first | rfl | cases hcloser

theorem Nested.append (h : Nested before) (h' : Nested ls) : Nested (before ++ ls) := by
  induction h with
  | nil => exact h'
  | cons hopens hcloses _ ih => exact .cons hopens hcloses ih
  | pair hopens hcloses hinner _ _ ih =>
    rw [List.cons_append, List.append_assoc, List.cons_append]
    exact .pair hopens hcloses hinner ih

theorem LeavesDue.append (h : LeavesDue due before) (h' : Nested ls) :
    LeavesDue due (before ++ ls) := by
  cases h with
  | nested h => exact .nested (h.append h')
  | opening h hopens hinner =>
    rw [List.append_assoc, List.cons_append]
    exact .opening h hopens (hinner.append h')

theorem leavesDue_nil_iff : LeavesDue [] ls ↔ Nested ls := by
  constructor
  · intro h
    cases h with
    | nested h => exact h
  · exact .nested

/-! ## The brackets that are due -/

/-- The closing brackets that are due behind a lexeme; nothing if it closes what is not due. -/
def dueAfter (due : List Punctuator) (l : Lexeme) : Option (List Punctuator) :=
  match l.closer?, l.closing? with
  | some p, _ => some (p :: due)
  | none, some p => if due.head? = some p then some due.tail else none
  | none, none => some due

theorem dueAfter_opening (h : l.closer? = some p) : dueAfter due l = some (p :: due) := by
  simp [dueAfter, h]

theorem dueAfter_closing (h : l.closing? = some p) :
    dueAfter due l = if due.head? = some p then some due.tail else none := by
  simp [dueAfter, h, closer?_of_closing? h]

theorem dueAfter_other (hopens : l.closer? = none) (hcloses : l.closing? = none) :
    dueAfter due l = some due := by
  simp [dueAfter, hopens, hcloses]

/-- Only a closing bracket that is not due is refused. -/
theorem dueAfter_eq_none : dueAfter due l = none ↔ ∃ p, l.closing? = some p ∧
    due.head? ≠ some p := by
  constructor
  · intro h
    cases hcloses : l.closing? with
    | none => cases hopens : l.closer? <;> simp [dueAfter, hopens, hcloses] at h
    | some p =>
      rw [dueAfter_closing hcloses] at h
      exact ⟨p, rfl, by simpa using h⟩
  · rintro ⟨p, hcloses, hdue⟩
    rw [dueAfter_closing hcloses, if_neg hdue]

/-- A nested row leaves due what was due. -/
theorem Nested.foldlM_dueAfter (h : Nested ls) (due : List Punctuator) :
    ls.foldlM dueAfter due = some due := by
  induction h generalizing due with
  | nil => rfl
  | cons hopens hcloses _ ih =>
    rw [List.foldlM_cons, dueAfter_other hopens hcloses]
    exact ih due
  | @pair l m p inner ls hopens hcloses _ _ ihinner ih =>
    have hclosed : dueAfter (p :: due) m = some due := by
      rw [dueAfter_closing hcloses]
      exact if_pos rfl
    rw [List.foldlM_cons, dueAfter_opening hopens]
    simp only [Option.bind_eq_bind, Option.bind_some, List.foldlM_append, ihinner,
      List.foldlM_cons, hclosed, ih]

/-- A bracket that is closed makes a nested row of what it encloses. -/
theorem LeavesDue.closing (h : LeavesDue (p :: due) before) (hl : l.closing? = some p) :
    LeavesDue due (before ++ [l]) := by
  cases h with
  | @opening _ o _ before inner h hopens hinner =>
    have hpair : Nested (o :: (inner ++ l :: [])) := .pair hopens hl hinner .nil
    have hwhole := h.append hpair
    rwa [List.append_assoc, List.cons_append]

/-- Going through a row tells what it leaves due. -/
theorem leavesDue_iff : LeavesDue due ls ↔ ls.foldlM dueAfter [] = some due := by
  constructor
  · intro h
    induction h with
    | nested h => exact h.foldlM_dueAfter []
    | @opening due l p before ls _ hopens hinner ih =>
      rw [List.foldlM_append, ih]
      simp only [Option.bind_eq_bind, Option.bind_some, List.foldlM_cons, dueAfter_opening hopens,
        hinner.foldlM_dueAfter]
  · intro h
    -- By induction from the end of the row: its last lexeme opens, closes or is no bracket.
    induction ls using List.reverseRecOn generalizing due with
    | nil =>
      cases h
      exact .nested .nil
    | append_singleton before l ih =>
      rw [List.foldlM_append] at h
      obtain ⟨due', hbefore, hl⟩ := Option.bind_eq_some_iff.1 h
      have hdue : dueAfter due' l = some due := by simpa using hl
      have hopen := ih hbefore
      cases hopens : l.closer? with
      | some p =>
        rw [dueAfter_opening hopens] at hdue
        cases hdue
        exact .opening hopen hopens .nil
      | none =>
        cases hcloses : l.closing? with
        | none =>
          rw [dueAfter_other hopens hcloses] at hdue
          cases hdue
          exact hopen.append (.cons hopens hcloses .nil)
        | some p =>
          rw [dueAfter_closing hcloses] at hdue
          cases due' with
          | nil => cases hdue
          | cons q due' =>
            split at hdue
            case isTrue hp =>
              cases hp
              cases hdue
              exact hopen.closing hcloses
            case isFalse => cases hdue

/-- Either a row leaves something due, or it has a first closing bracket that is not due. -/
theorem leavesDue_or_unbalanced (ls : List Lexeme) :
    (∃ due, LeavesDue due ls) ∨ ∃ p place, Unbalanced ls p place := by
  induction ls using List.reverseRecOn with
  | nil => exact .inl ⟨[], .nested .nil⟩
  | append_singleton before l ih =>
    rcases ih with ⟨due, hbefore⟩ | ⟨p, place, before', m, after, due, rfl, hrest⟩
    · cases hl : dueAfter due l with
      | some due' =>
        refine .inl ⟨due', leavesDue_iff.2 ?_⟩
        rw [List.foldlM_append, leavesDue_iff.1 hbefore]
        simp [hl]
      | none =>
        obtain ⟨p, hcloses, hdue⟩ := dueAfter_eq_none.1 hl
        exact .inr ⟨p, l.start, before, l, [], due, rfl, hbefore, hcloses, hdue, rfl⟩
    · exact .inr ⟨p, place, before', m, after ++ [l], due, by simp, hrest⟩

end Lexeme

/-! ## One lexeme -/

namespace Terminators

open Terminal (punctuator)

/-- The closing brackets that are due in a state. -/
def due (s : Terminators) : List Punctuator := s.scopes.map Scope.closer

variable {s next : Terminators} {l : Lexeme} {follow last : Option Lexeme} {ls : List Lexeme}
  {t : Terminal} {p : Punctuator} {ps : List Punctuator}

/-- What closes the bracket that a terminal opens. -/
def closerOf : Terminal → Punctuator
  | .punctuator .leftParen => .rightParen
  | .punctuator .leftBracket => .rightBracket
  | _ => .rightBrace

theorem due_eq (s : Terminators) : s.due = (s.scopes.map Scope.opener).map closerOf := by
  rw [due, List.map_map]
  refine List.map_congr_left fun scope _ => ?_
  cases scope <;> rfl

/-- Reading what closes nothing makes due what the bracket demands, if it is one. -/
theorem Reading.dueAfter (h : Reading s l t next) (hcloses : l.closing? = none) :
    Lexeme.dueAfter s.due l = some next.due := by
  have hbrackets := h.brackets
  rw [due_eq, due_eq, hbrackets]
  cases h.readsAs with
  | punctuator hl =>
    rename_i p
    simp only [Lexeme.closing?, Lexeme.punctuator?, hl] at hcloses
    simp only [Lexeme.dueAfter, Lexeme.closer?, Lexeme.closing?, Lexeme.punctuator?, hl, hcloses,
      Option.bind_some]
    cases p <;> first | rfl | cases hcloses
  | objectBrace hl | terminator hl =>
    simp only [Lexeme.dueAfter, Lexeme.closer?, Lexeme.closing?, Lexeme.punctuator?, hl]
    rfl
  | number hl | string hl | template hl | regex hl | name hl | word hl | functionDeclaration hl
    | classDeclaration hl =>
    simp only [Lexeme.dueAfter, Lexeme.closer?, Lexeme.closing?, Lexeme.punctuator?, hl]
    rfl

/-- Whatever closes nothing can be read. -/
theorem exists_read (s : Terminators) (follow : Option Lexeme) (hcloses : l.closing? = none) :
    ∃ t next, s.read l follow = .ok (t, next) := by
  unfold read
  split
  case h_5 => split <;> exact ⟨_, _, rfl⟩
  case h_6 p hl =>
    simp only [Lexeme.closing?, Lexeme.punctuator?, hl] at hcloses
    cases p
    case rightBrace | rightParen | rightBracket => cases hcloses
    case semicolon | colon =>
      all_goals
        unfold readPunctuator
        dsimp only
        split <;> exact ⟨_, _, rfl⟩
    all_goals exact ⟨_, _, rfl⟩
  all_goals exact ⟨_, _, rfl⟩

/-- A closing bracket closes the innermost scope or is refused. -/
theorem read_closing (s : Terminators) (follow : Option Lexeme) (hl : l.closing? = some p) :
    s.read l follow = s.closeScope p := by
  obtain ⟨hkind, hcloser⟩ := Option.filter_eq_some_iff.1 hl
  have hp : l.kind = .punctuator p := by
    unfold Lexeme.punctuator? at hkind
    split at hkind
    case h_1 hq => rw [hq, Option.some.inj hkind]
    case h_2 => cases hkind
  unfold read
  rw [hp]
  cases p <;> first | rfl | cases hcloser

/-- A lexeme is read if what it closes is due. -/
theorem read_of_dueAfter (hs : s.AnnouncesStatements) (h : Lexeme.dueAfter s.due l = some ps)
    (follow : Option Lexeme) :
    ∃ t next, s.read l follow = .ok (t, next) ∧ next.AnnouncesStatements ∧ next.due = ps := by
  cases hcloses : l.closing? with
  | none =>
    obtain ⟨t, next, hread⟩ := exists_read s follow hcloses
    have hreading := reading_of_read hs hread
    rw [hreading.dueAfter hcloses] at h
    exact ⟨t, next, hread, hreading.announces, Option.some.inj h⟩
  | some p =>
    rw [Lexeme.dueAfter_closing hcloses] at h
    rw [read_closing s follow hcloses]
    unfold closeScope
    cases hscopes : s.scopes with
    | nil => simp [Terminators.due, hscopes] at h
    | cons scope outer =>
      simp only [Terminators.due, hscopes, List.map_cons, List.head?_cons, Option.some.injEq,
        List.tail_cons] at h
      split at h
      case isTrue hp =>
        cases h
        exact ⟨_, _, if_pos hp, hs, rfl⟩
      case isFalse => cases h

/-- A closing bracket that is not due is reported. -/
theorem read_of_not_due (hl : l.closing? = some p) (hdue : s.due.head? ≠ some p) :
    s.read l follow = .error (.unbalanced p) := by
  rw [read_closing s follow hl]
  unfold closeScope
  cases hscopes : s.scopes with
  | nil => rfl
  | cons scope outer =>
    simp only [Terminators.due, hscopes, List.map_cons, List.head?_cons] at hdue
    exact if_neg fun h => hdue (congrArg some h)

/-! ## The stream -/

/-- A terminator that is inserted opens and closes nothing. -/
theorem due_before (s : Terminators) (l : Lexeme) :
    (if s.needsTerminator l then s.remember .terminator none else s).due = s.due := by
  split <;> rfl

theorem announcesStatements_before (hs : s.AnnouncesStatements) (l : Lexeme) :
    (if s.needsTerminator l then s.remember .terminator none else s).AnnouncesStatements := by
  split <;> exact hs

/-- A stream goes on behind a lexeme that is read. -/
theorem stop_tokens_cons
    (h : (if s.needsTerminator l then s.remember .terminator none else s).read l ls.head? =
      .ok (t, next)) :
    (s.tokens last (l :: ls)).stop = (next.tokens (some l) ls).stop := by
  rw [tokens]
  simp only [h]
  rfl

/-- Where lexemes close only what is due, the stream goes on behind them as it does from some state
in which the same is due. -/
theorem exists_stop_tokens_append (hs : s.AnnouncesStatements) (last : Option Lexeme)
    (h : ls.foldlM Lexeme.dueAfter s.due = some ps) (after : List Lexeme) :
    ∃ next : Terminators, next.AnnouncesStatements ∧ next.due = ps ∧
      (s.tokens last (ls ++ after)).stop = (next.tokens (ls.getLast?.or last) after).stop := by
  induction ls generalizing s last with
  | nil =>
    cases h
    exact ⟨s, hs, rfl, rfl⟩
  | cons l ls ih =>
    obtain ⟨qs, hl, hls⟩ := Option.bind_eq_some_iff.1 (List.foldlM_cons.symm.trans h)
    rw [← due_before s l] at hl
    obtain ⟨t, mid, hread, hmid, rfl⟩ :=
      read_of_dueAfter (announcesStatements_before hs l) hl (ls ++ after).head?
    obtain ⟨next, hnext, hdue, hstop⟩ := ih hmid (some l) hls
    have hlast : (l :: ls).getLast?.or last = ls.getLast?.or (some l) := by
      rw [List.getLast?_cons]
      cases ls.getLast? <;> rfl
    refine ⟨next, hnext, hdue, ?_⟩
    rw [List.cons_append, stop_tokens_cons hread, hstop, hlast]

end Terminators

/-! ## Bracket discipline -/

namespace TokenStream

open Lexeme

variable {ls : List Lexeme} {p : Punctuator} {place : Position}

/-- A stream goes on behind lexemes that close only what is due. -/
theorem exists_stop_ofLexemes {before : List Lexeme} {due : List Punctuator}
    (h : LeavesDue due before) (after : List Lexeme) :
    ∃ next : Terminators, next.due = due ∧
      (ofLexemes (before ++ after)).stop = (next.tokens before.getLast? after).stop := by
  have hstart : ({} : Terminators).AnnouncesStatements := List.forall_mem_nil _
  obtain ⟨next, -, hdue, hstop⟩ :=
    Terminators.exists_stop_tokens_append hstart none (leavesDue_iff.1 h) after
  rw [Option.or_none] at hstop
  exact ⟨next, hdue, hstop⟩

/-- Nothing is wrong with nested brackets. -/
theorem stop_of_nested (h : Nested ls) : (ofLexemes ls).stop = none := by
  obtain ⟨next, hdue, hstop⟩ := exists_stop_ofLexemes (.nested h) []
  rw [List.append_nil] at hstop
  have hscopes : next.scopes = [] := List.map_eq_nil_iff.1 hdue
  rw [hstop, Terminators.tokens]
  unfold Terminators.finish
  split
  · rfl
  · simp only [hscopes]
    split <;> rfl

/-- A closing bracket that is not due is reported where it stands. -/
theorem stop_of_unbalanced (h : Unbalanced ls p place) :
    (ofLexemes ls).stop = some ⟨.unbalanced p, place⟩ := by
  obtain ⟨before, l, after, due, rfl, hbefore, hl, hdue, rfl⟩ := h
  obtain ⟨next, rfl, hstop⟩ := exists_stop_ofLexemes hbefore (l :: after)
  rw [← Terminators.due_before next l] at hdue
  rw [hstop, Terminators.tokens]
  simp only [Terminators.read_of_not_due hl hdue]

/-- An opening bracket that is left open is reported at the end. -/
theorem stop_of_unclosed (h : Unclosed ls p place) :
    ∃ scope, scope.closer = p ∧ (ofLexemes ls).stop = some ⟨.unclosed scope, place⟩ := by
  obtain ⟨due, l, hopen, hlast, rfl⟩ := h
  obtain ⟨next, hdue, hstop⟩ := exists_stop_ofLexemes hopen []
  rw [List.append_nil] at hstop
  obtain ⟨scope, outer, hscopes, hcloser, -⟩ := List.map_eq_cons_iff.1 hdue
  refine ⟨scope, hcloser, ?_⟩
  rw [hstop, hlast, Terminators.tokens, Terminators.finish]
  simp only [hscopes]

/-- One of three things is the case, and the stream ends accordingly. -/
theorem stop_cases (ls : List Lexeme) :
    (Nested ls ∧ (ofLexemes ls).stop = none) ∨
      (∃ p place, Unbalanced ls p place ∧ (ofLexemes ls).stop = some ⟨.unbalanced p, place⟩) ∨
      ∃ scope place, Unclosed ls scope.closer place ∧
        (ofLexemes ls).stop = some ⟨.unclosed scope, place⟩ := by
  rcases leavesDue_or_unbalanced ls with ⟨due, hdue⟩ | ⟨p, place, h⟩
  · cases due with
    | nil =>
      have hnested := leavesDue_nil_iff.1 hdue
      exact .inl ⟨hnested, stop_of_nested hnested⟩
    | cons p due =>
      have hne : ls ≠ [] := by
        rintro rfl
        cases leavesDue_iff.1 hdue
      have hopen : Unclosed ls p (ls.getLast hne).finish :=
        ⟨due, ls.getLast hne, hdue, List.getLast?_eq_some_getLast hne, rfl⟩
      obtain ⟨scope, rfl, hstop⟩ := stop_of_unclosed hopen
      exact .inr (.inr ⟨scope, _, hopen, hstop⟩)
  · exact .inr (.inl ⟨p, place, h, stop_of_unbalanced h⟩)

/-- The stream of a row of lexemes ends well if and only if its brackets are nested. Else it stops
where the first closing bracket stands that closes nothing or not the innermost open bracket, or at
the end of the last lexeme, if there is none but a bracket is left open. -/
theorem stop_ofLexemes (ls : List Lexeme) :
    ((ofLexemes ls).stop = none ↔ Nested ls) ∧
      (∀ p place, (ofLexemes ls).stop = some ⟨.unbalanced p, place⟩ ↔ Unbalanced ls p place) ∧
      ∀ p place, (∃ scope, scope.closer = p ∧
        (ofLexemes ls).stop = some ⟨.unclosed scope, place⟩) ↔ Unclosed ls p place := by
  refine ⟨⟨fun h => ?_, stop_of_nested⟩, fun p place => ⟨fun h => ?_, stop_of_unbalanced⟩,
    fun p place => ⟨?_, stop_of_unclosed⟩⟩
  · rcases stop_cases ls with ⟨hnested, -⟩ | ⟨p, place, -, hstop⟩ | ⟨scope, place, -, hstop⟩
    · exact hnested
    all_goals
      rw [h] at hstop
      cases hstop
  · rcases stop_cases ls with
      ⟨-, hstop⟩ | ⟨q, place', hunbalanced, hstop⟩ | ⟨scope, place', -, hstop⟩
    all_goals
      rw [h] at hstop
      cases hstop
    exact hunbalanced
  · rintro ⟨scope, rfl, h⟩
    rcases stop_cases ls with
      ⟨-, hstop⟩ | ⟨q, place', -, hstop⟩ | ⟨scope', place', hunclosed, hstop⟩
    all_goals
      rw [h] at hstop
      cases hstop
    exact hunclosed

end TokenStream

end ModuleLowering
