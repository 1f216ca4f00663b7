import Mathlib.Data.List.Chain
import ModuleLowering.Proofs.Explicit

/-!
# What the insertion of terminators adds

Every lexeme has one token, with its text at its place, and nothing else comes in but terminators:
at most one between two of these tokens, and at most one behind them all. They stand among
statements. Which brackets are open is told by the tokens before: a brace, a parenthesis or a
square bracket opens one and its counterpart closes it. The scopes that are kept along are these
brackets, so that no terminator comes into parentheses, square brackets or the braces of an object.
-/

set_option autoImplicit false

namespace ModuleLowering

/-! ## Open brackets -/

/-- The brackets that are open behind a terminal, each by the terminal that opened it. -/
def Terminal.bracketsAfter (brackets : List Terminal) : Terminal → List Terminal
  | .objectBrace => .objectBrace :: brackets
  | .punctuator p =>
    match p with
    | .leftBrace | .leftParen | .leftBracket => .punctuator p :: brackets
    | .rightBrace | .rightParen | .rightBracket => brackets.tail
    | _ => brackets
  | _ => brackets

/-- The brackets that are open behind tokens, innermost first. -/
def openBrackets (ts : List Token) : List Terminal :=
  ts.foldl (fun brackets t => t.terminal.bracketsAfter brackets) []

/-- No bracket is open, or the innermost one is a brace that holds statements, the body of a
function or the members of a class: it is no brace of an object, whose terminal is another. -/
def AmongStatements (ts : List Token) : Prop :=
  ∀ t ∈ (openBrackets ts).head?, t = .punctuator .leftBrace

theorem openBrackets_append_singleton (ts : List Token) (t : Token) :
    openBrackets (ts ++ [t]) = t.terminal.bracketsAfter (openBrackets ts) := List.foldl_append

/-- The terminal that opens a scope. -/
def Scope.opener : Scope → Terminal
  | .object => .objectBrace
  | .head | .doHead | .parenthesis => .punctuator .leftParen
  | .bracket => .punctuator .leftBracket
  | _ => .punctuator .leftBrace

theorem Scope.opener_eq_leftBrace (s : Scope) :
    s.opener = .punctuator .leftBrace ↔ s.holdsStatements = true := by
  cases s <;> decide

/-! ## Tokens and lexemes -/

/-- The terminals that a lexeme may be read as. -/
inductive Lexeme.ReadsAs (l : Lexeme) : Terminal → Prop where
  | number : l.kind = .number → ReadsAs l .number
  | string : l.kind = .string → ReadsAs l .string
  | template : l.kind = .template → ReadsAs l .template
  | regex : l.kind = .regex → ReadsAs l .regex
  | name : l.kind = .name → ReadsAs l .name
  | word {w : Word} : l.kind = .name → Word.ofText? l.text = some w → ReadsAs l (.word w)
  | functionDeclaration : l.kind = .name → Word.ofText? l.text = some .kwFunction →
      ReadsAs l .functionDeclaration
  | classDeclaration : l.kind = .name → Word.ofText? l.text = some .kwClass →
      ReadsAs l .classDeclaration
  | punctuator {p : Punctuator} : l.kind = .punctuator p → ReadsAs l (.punctuator p)
  | objectBrace : l.kind = .punctuator .leftBrace → ReadsAs l .objectBrace
  | terminator : l.kind = .punctuator .semicolon → ReadsAs l .terminator

/-- A token is that of a lexeme: it has its text and its place. -/
structure Token.StandsFor (l : Lexeme) (t : Token) : Prop where
  terminal : l.ReadsAs t.terminal
  text : t.text = l.text
  offset : t.offset = l.offset
  start : t.start = l.start
  endOffset : t.endOffset = l.endOffset
  finish : t.finish = l.finish

/-- A terminator stands among statements, and a semicolon that ends no statement stands
elsewhere. -/
def WellPlaced (before : List Token) (t : Token) : Prop :=
  (t.terminal = .terminator → AmongStatements before) ∧
    (t.terminal = .punctuator .semicolon → ¬AmongStatements before)

/-- Behind other tokens, tokens are those of lexemes with terminators inserted. -/
structure Terminated (before : List Token) (ls : List Lexeme) (ts : List Token) : Prop where
  /-- Without the inserted ones there is one token for each lexeme. -/
  kept : List.Forall₂ Token.StandsFor ls (ts.filter fun t => !t.inserted)
  /-- No two are inserted side by side. -/
  single : ts.IsChain fun t u => ¬(t.inserted = true ∧ u.inserted = true)
  inserted : ∀ t ∈ ts, t.inserted = true → t.terminal = .terminator
  placed : ∀ us t vs, ts = us ++ t :: vs → WellPlaced (before ++ us) t

namespace Terminated

variable {before ts : List Token} {ls : List Lexeme} {l : Lexeme} {t : Token}

theorem nil : Terminated before [] [] :=
  ⟨.nil, List.isChain_nil, List.forall_mem_nil _, fun us t vs h => by cases us <;> cases h⟩

/-- What holds at the first place and at those behind it holds at every place. -/
theorem placed_cons (ht : WellPlaced before t)
    (hts : ∀ us u vs, ts = us ++ u :: vs → WellPlaced (before ++ [t] ++ us) u) :
    ∀ us u vs, t :: ts = us ++ u :: vs → WellPlaced (before ++ us) u := by
  intro us u vs h
  cases us with
  | nil =>
    obtain ⟨rfl, -⟩ := List.cons_eq_cons.1 h
    rwa [List.append_nil]
  | cons v us =>
    obtain ⟨rfl, hrest⟩ := List.cons_eq_cons.1 h
    have hplaced := hts us u vs hrest
    rwa [List.append_assoc] at hplaced

/-- The token of the next lexeme. -/
theorem cons (hl : t.StandsFor l) (hkept : t.inserted = false) (hplaced : WellPlaced before t)
    (h : Terminated (before ++ [t]) ls ts) : Terminated before (l :: ls) (t :: ts) where
  kept := by
    rw [List.filter_cons_of_pos (by rw [hkept]; rfl)]
    exact .cons hl h.kept
  single := h.single.cons fun u _ hboth => Bool.false_ne_true (hkept.symm.trans hboth.1)
  inserted u hu hinserted := by
    rcases List.mem_cons.1 hu with rfl | hu
    · exact absurd hinserted (by rw [hkept]; exact Bool.false_ne_true)
    · exact h.inserted u hu hinserted
  placed := placed_cons hplaced h.placed

/-- A terminator that is inserted before the tokens of lexemes, or behind them all. -/
theorem insert (hterminal : t.terminal = .terminator) (hinserted : t.inserted = true)
    (hamong : AmongStatements before) (hnext : ∀ u ∈ ts.head?, u.inserted = false)
    (h : Terminated (before ++ [t]) ls ts) : Terminated before ls (t :: ts) where
  kept := by
    rw [List.filter_cons_of_neg (by rw [hinserted]; exact Bool.false_ne_true)]
    exact h.kept
  single := h.single.cons fun u hu hboth =>
    Bool.false_ne_true ((hnext u hu).symm.trans hboth.2)
  inserted u hu hu' := by
    rcases List.mem_cons.1 hu with rfl | hu
    · exact hterminal
    · exact h.inserted u hu hu'
  placed := placed_cons ⟨fun _ => hamong, fun h => by rw [hterminal] at h; cases h⟩ h.placed

end Terminated

namespace Terminators

open Terminal (word punctuator bracketsAfter)

variable {s next : Terminators} {l : Lexeme} {last follow : Option Lexeme} {ls : List Lexeme}
  {t : Terminal} {before ts : List Token} {w : Word} {p : Punctuator}

/-! ## One lexeme -/

/-- Only scopes that hold statements are announced. -/
def AnnouncesStatements (s : Terminators) : Prop :=
  ∀ a ∈ s.announced, a.2.holdsStatements = true

/-- What the reading of a lexeme as a terminal does. -/
structure Reading (s : Terminators) (l : Lexeme) (t : Terminal) (next : Terminators) : Prop where
  readsAs : l.ReadsAs t
  brackets : next.scopes.map Scope.opener = t.bracketsAfter (s.scopes.map Scope.opener)
  announces : next.AnnouncesStatements
  terminator : t = .terminator → s.inStatements = true
  semicolon : t = punctuator .semicolon → s.inStatements = false

namespace Reading

/-- Whatever is neither a terminator nor a semicolon may stand everywhere. -/
theorem ofOther (hreads : l.ReadsAs t)
    (hbrackets : next.scopes.map Scope.opener = t.bracketsAfter (s.scopes.map Scope.opener))
    (hnext : next.AnnouncesStatements) (hterminator : t ≠ .terminator)
    (hsemicolon : t ≠ punctuator .semicolon) : Reading s l t next :=
  ⟨hreads, hbrackets, hnext, fun h => absurd h hterminator, fun h => absurd h hsemicolon⟩

/-- A word opens and closes no bracket. -/
theorem ofWord (hl : l.kind = .name) (hw : Word.ofText? l.text = some w)
    (hscopes : next.scopes = s.scopes) (hnext : next.AnnouncesStatements) :
    Reading s l (word w) next := by
  refine .ofOther (.word hl hw) ?_ hnext Terminal.noConfusion Terminal.noConfusion
  rw [hscopes]
  rfl

theorem ofPunctuator (hl : l.kind = .punctuator p) (hp : p ≠ .semicolon)
    (hbrackets : next.scopes.map Scope.opener =
      (punctuator p).bracketsAfter (s.scopes.map Scope.opener))
    (hnext : next.AnnouncesStatements) : Reading s l (punctuator p) next :=
  .ofOther (.punctuator hl) hbrackets hnext Terminal.noConfusion
    fun h => hp (Terminal.punctuator.inj h)

end Reading

theorem ofText_of_wordOf {text : Text} (h : s.wordOf text follow = some w) :
    Word.ofText? text = some w := by
  obtain ⟨v, hv, h⟩ := Option.bind_eq_some_iff.1 h
  dsimp only at h
  split at h
  · cases h
  · split at h <;> cases h
    exact hv

/-- A body is announced, an object never. -/
theorem reading_readWord (hs : s.AnnouncesStatements) (hl : l.kind = .name)
    (hw : Word.ofText? l.text = some w) : Reading s l (s.readWord w).1 (s.readWord w).2 := by
  have hannounce {scope : Scope} (hscope : scope.holdsStatements = true) :
      ∀ a ∈ (s.scopes.length, scope) :: s.announced, a.2.holdsStatements = true :=
    List.forall_mem_cons.2 ⟨hscope, hs⟩
  cases w with
  | kwFunction =>
    simp only [readWord, if_true]
    generalize (if s.previous = some (word .kwAsync) then s.asyncAtStart
      else s.atStatementStart) = declares
    cases declares
    · exact .ofWord hl hw rfl (hannounce rfl)
    · exact .ofOther (.functionDeclaration hl hw) rfl (hannounce rfl) (by decide) (by decide)
  | kwClass =>
    simp only [readWord, reduceCtorEq, if_false]
    generalize (if s.previous = some (word .kwAsync) then s.asyncAtStart
      else s.atStatementStart) = declares
    cases declares
    · exact .ofWord hl hw rfl (hannounce rfl)
    · exact .ofOther (.classDeclaration hl hw) rfl (hannounce rfl) (by decide) (by decide)
  | kwWhile =>
    refine .ofWord hl hw (readWord_scopes s .kwWhile).1 ?_
    simp only [readWord, AnnouncesStatements, remember]
    split <;> exact hs
  | _ => exact .ofWord hl hw rfl hs

/-- An opening brace opens an object or something that holds statements. -/
theorem braceScope_cases (hs : s.AnnouncesStatements) :
    (s.braceScope.1 = .object ∨ s.braceScope.1.holdsStatements = true) ∧
      ∀ a ∈ s.braceScope.2, a.2.holdsStatements = true := by
  have hunannounced : s.unannouncedScope = .object ∨ s.unannouncedScope.holdsStatements = true := by
    unfold unannouncedScope
    split
    · exact .inr rfl
    · split
      · exact .inr rfl
      · exact .inl rfl
  unfold braceScope
  split
  · rename_i announced depth scope rest hlist
    split
    · refine ⟨.inr (hs (depth, scope) ?_), fun a ha => hs a ?_⟩
      · rw [hlist]
        exact List.mem_cons_self
      · rw [hlist]
        exact List.mem_cons_of_mem _ ha
    · exact ⟨hunannounced, hs⟩
  · exact ⟨hunannounced, hs⟩

theorem reading_closeScope (hs : s.AnnouncesStatements) (hl : l.kind = .punctuator p)
    (hp : p = .rightBrace ∨ p = .rightParen ∨ p = .rightBracket)
    (h : s.closeScope p = .ok (t, next)) : Reading s l t next := by
  unfold closeScope at h
  split at h
  · cases h
  · rename_i scope outer hscopes
    split at h <;> cases h
    refine .ofPunctuator hl ?_ ?_ hs
    · rcases hp with rfl | rfl | rfl <;> decide
    · rw [hscopes]
      rcases hp with rfl | rfl | rfl <;> rfl

theorem reading_readPunctuator (hs : s.AnnouncesStatements) (hl : l.kind = .punctuator p)
    (h : s.readPunctuator p = .ok (t, next)) : Reading s l t next := by
  cases p
  case leftBrace =>
    obtain ⟨hscope, hannounced⟩ := braceScope_cases hs
    simp only [readPunctuator, Except.ok.injEq, Prod.mk.injEq] at h
    obtain ⟨rfl, rfl⟩ := h
    split
    case isTrue hobject =>
      refine .ofOther (.objectBrace hl) ?_ hannounced (by decide) (by decide)
      simp only [remember, List.map_cons, hobject]
      rfl
    case isFalse hobject =>
      refine .ofPunctuator hl (by decide) ?_ hannounced
      have hopener := (Scope.opener_eq_leftBrace _).2 (hscope.resolve_left hobject)
      simp only [remember, List.map_cons, hopener]
      rfl
  case leftParen =>
    simp only [readPunctuator, Except.ok.injEq, Prod.mk.injEq] at h
    obtain ⟨rfl, rfl⟩ := h
    refine .ofPunctuator hl (by decide) ?_ hs
    have hopener : (if s.afterHeadWord then if s.doConditionDue then Scope.doHead else .head
        else .parenthesis).opener = punctuator .leftParen := by
      split
      · split <;> rfl
      · rfl
    simp only [remember, List.map_cons, hopener]
    rfl
  case rightBrace | rightParen | rightBracket =>
    exact reading_closeScope hs hl (by decide) h
  case semicolon =>
    simp only [readPunctuator] at h
    split at h
    case isTrue hin =>
      cases h
      exact ⟨.terminator hl, rfl, hs, fun _ => hin, fun h => absurd h (by decide)⟩
    case isFalse hin =>
      cases h
      exact ⟨.punctuator hl, rfl, hs, fun h => absurd h (by decide), fun _ => Bool.eq_false_iff.2 hin⟩
  case colon =>
    simp only [readPunctuator] at h
    split at h <;> cases h <;> exact .ofPunctuator hl (by decide) rfl hs
  all_goals
    cases h
    exact .ofPunctuator hl (by decide) rfl hs

theorem reading_of_read (hs : s.AnnouncesStatements) (h : s.read l follow = .ok (t, next)) :
    Reading s l t next := by
  unfold read at h
  split at h
  case h_1 hl =>
    cases h
    exact .ofOther (.number hl) rfl hs (by decide) (by decide)
  case h_2 hl =>
    cases h
    exact .ofOther (.string hl) rfl hs (by decide) (by decide)
  case h_3 hl =>
    cases h
    exact .ofOther (.template hl) rfl hs (by decide) (by decide)
  case h_4 hl =>
    cases h
    exact .ofOther (.regex hl) rfl hs (by decide) (by decide)
  case h_5 hl =>
    split at h
    · cases h
      exact .ofOther (.name hl) rfl hs (by decide) (by decide)
    · rename_i w hw
      have hreading := reading_readWord hs hl (ofText_of_wordOf hw)
      rwa [Except.ok.inj h] at hreading
  case h_6 hl => exact reading_readPunctuator hs hl h

/-! ## The state behind tokens -/

/-- The scopes of a state are the brackets that are open behind tokens. -/
structure Tracks (s : Terminators) (before : List Token) : Prop where
  scopes : s.scopes.map Scope.opener = openBrackets before
  announces : s.AnnouncesStatements

namespace Tracks

theorem amongStatements_iff (h : s.Tracks before) :
    AmongStatements before ↔ s.inStatements = true := by
  unfold AmongStatements inStatements
  rw [← h.scopes]
  cases s.scopes with
  | nil => simp
  | cons scope outer =>
    rw [← Scope.opener_eq_leftBrace]
    simp

/-- Reading a lexeme keeps the state in step with the tokens. -/
theorem read (h : s.Tracks before) (hread : s.read l follow = .ok (t, next)) :
    next.Tracks (before ++ [tokenOf t l]) ∧ (tokenOf t l).StandsFor l ∧
      WellPlaced before (tokenOf t l) := by
  have hstep := reading_of_read h.announces hread
  refine ⟨⟨?_, hstep.announces⟩, ⟨hstep.readsAs, rfl, rfl, rfl, rfl, rfl⟩,
    fun ht => h.amongStatements_iff.2 (hstep.terminator ht), fun ht hamong => ?_⟩
  · rw [openBrackets_append_singleton, hstep.brackets, h.scopes]
    rfl
  · exact Bool.false_ne_true ((hstep.semicolon ht).symm.trans (h.amongStatements_iff.1 hamong))

theorem insertedBefore (h : s.Tracks before) :
    (s.remember .terminator none).Tracks (before ++ [insertedBefore l]) :=
  ⟨by rw [openBrackets_append_singleton, ← h.scopes]; rfl, h.announces⟩

end Tracks

/-! ## The stream -/

theorem terminated_of_tokens (hs : s.Tracks before) (h : s.tokens last ls = ⟨ts, none⟩) :
    Terminated before ls ts := by
  induction ls generalizing s last before ts with
  | nil =>
    cases last with
    | none =>
      cases h
      exact .nil
    | some l =>
      obtain ⟨hscopes, rfl⟩ := finish_eq_ok.1 h
      split
      · have hamong : AmongStatements before :=
          hs.amongStatements_iff.2 (by simp [inStatements, hscopes])
        exact .insert rfl rfl hamong (by simp) .nil
      · exact .nil
  | cons l ls ih =>
    obtain ⟨t, next, us, hread, hus, rfl⟩ := tokens_cons_eq_ok.1 h
    cases hneeded : s.needsTerminator l with
    | false =>
      simp only [hneeded, Bool.false_eq_true, if_false] at hread ⊢
      obtain ⟨htracks, hstands, hplaced⟩ := hs.read hread
      exact .cons hstands rfl hplaced (ih htracks hus)
    | true =>
      simp only [hneeded, if_true] at hread ⊢
      have hamong := hs.amongStatements_iff.2 (needsTerminator_cases hneeded).1
      obtain ⟨htracks, hstands, hplaced⟩ := (hs.insertedBefore (l := l)).read hread
      refine .insert rfl rfl hamong (fun u hu => ?_) (.cons hstands rfl hplaced (ih htracks hus))
      rw [← Option.some.inj hu]
      rfl

end Terminators

/-- The insertion of terminators only adds: the tokens of lexemes are theirs, one for each, with
single terminators between them and behind them, and these stand among statements. -/
theorem TokenStream.terminated_ofLexemes {ls : List Lexeme} (h : (ofLexemes ls).stop = none) :
    Terminated [] ls (ofLexemes ls).tokens := by
  have hstart : ({} : Terminators).Tracks [] := ⟨rfl, List.forall_mem_nil _⟩
  have htokens : ({} : Terminators).tokens none ls = ⟨(ofLexemes ls).tokens, none⟩ := by
    rw [← h]
    rfl
  exact Terminators.terminated_of_tokens hstart htokens

/-- None is inserted at the line breaks in an object and in parentheses, though nothing of this is
a module. -/
theorem TokenStream.terminated_ofLexemes_no_module :
    ∃ ls, Lexeme.scan "a\nb = \x7bc: d\ne\x7d\nif (f\ng) \x7b h; i \x7d\nj" = .ok ls ∧
      (ofLexemes ls).stop = none ∧
      ((ofLexemes ls).tokens.filter Token.inserted).map Token.offset = [2, 15, 31, 34] ∧
      Terminated [] ls (ofLexemes ls).tokens := by
  have hrun : (Lexeme.scan "a\nb = \x7bc: d\ne\x7d\nif (f\ng) \x7b h; i \x7d\nj").map (fun ls =>
      ((ofLexemes ls).stop, ((ofLexemes ls).tokens.filter Token.inserted).map Token.offset)) =
      .ok (none, [2, 15, 31, 34]) := by
    decide +kernel
  obtain ⟨ls, hscan, hls⟩ := Lexeme.exists_of_map_scan hrun
  obtain ⟨hstop, hinserted⟩ := Prod.mk.inj hls
  exact ⟨ls, hscan, hstop, hinserted, terminated_ofLexemes hstop⟩

end ModuleLowering
