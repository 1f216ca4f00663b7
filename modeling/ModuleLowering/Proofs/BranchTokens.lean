import ModuleLowering.Proofs.Branches
import ModuleLowering.Proofs.Replay

/-!
# Terminators among branches and loops

No terminator is inserted into the text of a statement made of branches and loops: every one it
needs is there. Each piece is read as what it was printed for. A brace opens a block, a parenthesis
the head of a statement, and a `while` ends a `do` exactly where its body has ended.
-/

set_option autoImplicit false

namespace ModuleLowering

/-- A token is a piece. -/
structure Piece.Reads (p : Piece) (t : Token) : Prop where
  terminal : t.terminal = p.terminal
  text : t.text = p.text

namespace Terminators

open Terminal (word punctuator)

variable {s s' s'' : Terminators} {f : Frame} {p : Piece} {ps qs : List Piece} {l : Lexeme}
  {w : Word}

/-! ## Rows of pieces -/

/-- No terminator is inserted before a piece, and it is read as what it is. -/
def Takes (s : Terminators) (p : Piece) : Prop :=
  ∀ l follow, p.Spells l →
    s.needsTerminator l = false ∧ s.read l follow = .ok (p.terminal, s.after p.terminal)

/-- A row of pieces is read from one state to another one. -/
inductive Passes : Terminators → List Piece → Terminators → Prop where
  | nil {s : Terminators} : Passes s [] s
  | cons {s s' : Terminators} {p : Piece} {ps : List Piece} : s.Takes p →
      Passes (s.after p.terminal) ps s' → Passes s (p :: ps) s'

theorem Passes.append (h : Passes s ps s') (h' : Passes s' qs s'') : Passes s (ps ++ qs) s'' := by
  induction h with
  | nil => exact h'
  | cons hp _ ih => exact .cons hp (ih h')

/-- The lexemes of a row of pieces are its tokens. -/
theorem Passes.exists_tokens (h : Passes s ps s') {ls : List Lexeme}
    (hls : List.Forall₂ Piece.Spells ps ls) (hend : s'.mayEnd = false) (hscopes : s'.scopes = [])
    (last : Option Lexeme) :
    ∃ ts, s.tokens last ls = ⟨ts, none⟩ ∧ List.Forall₂ Piece.Reads ps ts := by
  induction h generalizing ls last with
  | nil =>
    cases hls
    refine ⟨[], ?_, .nil⟩
    cases last with
    | none => rfl
    | some l =>
      apply finish_eq_ok.2
      rw [hend]
      exact ⟨hscopes, rfl⟩
  | @cons s s' p ps hp _ ih =>
    cases hls with
    | @cons _ l _ ls hl hls =>
      obtain ⟨hneeded, hread⟩ := hp l ls.head? hl
      obtain ⟨ts, hts, hreads⟩ := ih hls hend hscopes (some l)
      refine ⟨tokenOf p.terminal l :: ts, ?_, .cons ⟨rfl, hl.text⟩ hreads⟩
      apply tokens_cons_eq_ok.2
      rw [hneeded]
      exact ⟨p.terminal, _, ts, hread, hts, rfl⟩

/-! ## One piece -/

/-- Where no statement may end, no terminator is inserted. -/
theorem needsTerminator_of_mayEnd (h : s.mayEnd = false) (l : Lexeme) :
    s.needsTerminator l = false := by
  have hcondition : ¬(s.previous = some (punctuator .rightParen) ∧
      s.previousScope = some .doHead) := by
    rintro ⟨hprevious, hscope⟩
    simp [mayEnd, hprevious, hscope] at h
  have hjump : ∀ w, w ∈ [Word.kwReturn, .kwBreak, .kwContinue] → s.previous ≠ some (word w) := by
    intro w hw hprevious
    simp only [mayEnd, hprevious] at h
    revert h
    revert hw
    cases w <;> decide
  unfold needsTerminator
  split
  · rfl
  split
  · exact h
  split
  · rename_i hdo
    rw [Bool.and_eq_true, decide_eq_true_eq, decide_eq_true_eq] at hdo
    exact absurd hdo hcondition
  split
  · rfl
  split
  · rename_i hjumped
    simp only [List.contains_eq_mem, List.mem_cons, List.not_mem_nil, or_false, decide_eq_true_eq]
      at hjumped
    rcases hjumped with hjumped | hjumped | hjumped
    · exact absurd hjumped (hjump _ (by decide))
    · exact absurd hjumped (hjump _ (by decide))
    · exact absurd hjumped (hjump _ (by decide))
  · rw [h]
    rfl

theorem needsTerminator_of_inStatements (h : s.inStatements = false) (l : Lexeme) :
    s.needsTerminator l = false := by
  unfold needsTerminator
  rw [h]
  rfl

theorem takes_name {x : Text} (hx : Word.ofText? x = none) (hs : ∀ l, s.needsTerminator l = false) :
    s.Takes (.name x) := by
  intro l follow hl
  refine ⟨hs l, ?_⟩
  simp only [read, hl.kind, hl.text, Piece.kind, Piece.text, wordOf, hx]
  rfl

/-- Scopes in which a word of the grammar is never the name of a property or of a member. -/
def isOrdinary (scope : Scope) : Bool := [Scope.block, .head, .doHead].contains scope

/-- A word of the grammar that comes next is one: it stands neither behind a dot nor where a
property or a member may be named. -/
structure Wordy (s : Terminators) : Prop where
  dot : s.previous ≠ some (punctuator .dot)
  chain : s.previous ≠ some (punctuator .optionalChain)
  scopes : ∀ scope ∈ s.scopes.head?, isOrdinary scope = true

theorem Wordy.wordOf (h : s.Wordy) (w : Word) (follow : Option Lexeme) :
    s.wordOf w.text follow = some w := by
  have hscope : ∀ scope, isOrdinary scope = false → s.scopes.head? ≠ some scope := by
    intro scope hscope hhead
    rw [h.scopes scope hhead] at hscope
    cases hscope
  simp [Terminators.wordOf, Word.ofText_text, h.dot, h.chain, hscope .object rfl,
    hscope .classBody rfl, hscope .classExpressionBody rfl]

/-- Words after which nothing of the next line is looked at, and that announce no scope. -/
theorem takes_word (hs : s.Wordy) (hneeds : ∀ l, s.needsTerminator l = false)
    (hw : w ≠ .kwFunction ∧ w ≠ .kwClass) : s.Takes (.word w) := by
  intro l follow hl
  refine ⟨hneeds l, ?_⟩
  simp only [read, hl.kind, hl.text, Piece.kind, Piece.text, hs.wordOf]
  obtain ⟨hfunction, hclass⟩ := hw
  cases w
  case kwFunction => exact absurd rfl hfunction
  case kwClass => exact absurd rfl hclass
  all_goals rfl

/-- A semicolon where statements are. -/
theorem takes_terminator (tight : Bool) (hin : s.inStatements = true)
    (hneeds : s.mayEnd = false ∨ tight = true) : s.Takes (.terminator tight) := by
  intro l follow hl
  have hkind : l.kind = .punctuator .semicolon := hl.kind
  refine ⟨?_, by simp only [read, hkind, readPunctuator, hin, if_true, Piece.terminal, after]⟩
  rcases hneeds with hend | htight
  · exact needsTerminator_of_mayEnd hend l
  · exact needsTerminator_semicolon ⟨hkind, hl.tight htight⟩ s

/-- A semicolon in the head of a loop. -/
theorem takes_semicolon (hin : s.inStatements = false) : s.Takes (.punctuator .semicolon) := by
  intro l follow hl
  have hkind : l.kind = .punctuator .semicolon := hl.kind
  refine ⟨needsTerminator_of_inStatements hin l, ?_⟩
  simp [read, hkind, readPunctuator, hin, Piece.terminal, after]

theorem takes_leftParen (hneeds : ∀ l, s.needsTerminator l = false) :
    s.Takes (.punctuator .leftParen) := by
  intro l follow hl
  have hkind : l.kind = .punctuator .leftParen := hl.kind
  refine ⟨hneeds l, ?_⟩
  simp [read, hkind, readPunctuator, Piece.terminal, after]

/-- A closing bracket of the innermost scope. -/
theorem takes_closer {scope : Scope} {outer : List Scope} (hscopes : s.scopes = scope :: outer)
    (hneeds : ∀ l, s.needsTerminator l = false) : s.Takes (.punctuator scope.closer) := by
  intro l follow hl
  have hkind : l.kind = .punctuator scope.closer := hl.kind
  refine ⟨hneeds l, ?_⟩
  have hread : s.readPunctuator scope.closer = s.closeScope scope.closer := by
    cases scope <;> rfl
  have hclose : s.closeScope scope.closer = .ok (punctuator scope.closer,
      { s with scopes := outer }.remember (punctuator scope.closer) (some scope)) := by
    simp [closeScope, hscopes]
  simp only [read, hkind, Piece.terminal, after, hread, hclose]

theorem takes_leftBrace (hneeds : ∀ l, s.needsTerminator l = false)
    (hscope : s.braceScope.1 = .block) : s.Takes (.punctuator .leftBrace) := by
  intro l follow hl
  have hkind : l.kind = .punctuator .leftBrace := hl.kind
  refine ⟨hneeds l, ?_⟩
  simp [read, hkind, readPunctuator, hscope, Piece.terminal, after]

/-! ## States -/

/-- A state in which a statement starts, in a frame: nothing that could end is before it, and a
brace there opens a block. -/
structure Ready (s : Terminators) (f : Frame) : Prop extends s.Calm f where
  ready : s.previous = none ∨ s.previous = some .terminator ∨
    s.previous = some (word .kwElse) ∨ s.previous = some (word .kwDo) ∨
    s.previous = some (punctuator .leftBrace) ∨
    (s.previous = some (punctuator .rightParen) ∧ s.previousScope = some .head) ∨
    (s.previous = some (punctuator .rightBrace) ∧ s.previousScope = some .block)

/-- A state behind a statement, in a frame. -/
structure Ended (s : Terminators) (f : Frame) : Prop extends s.Done f where
  block : s.previous = some (punctuator .rightBrace) → s.previousScope = some .block

/-- Only blocks are open, and no other scope is announced. -/
structure OnlyBlocks (f : Frame) : Prop extends f.Sound where
  unannounced : f.announced = []
  blocks : ∀ scope ∈ f.scopes, scope = .block

theorem OnlyBlocks.push (h : OnlyBlocks f) : OnlyBlocks (f.push .block) where
  toSound := (h.toSound.push .block).toSound
  unannounced := h.unannounced
  blocks := List.forall_mem_cons.2 ⟨rfl, h.blocks⟩

theorem OnlyBlocks.await (h : OnlyBlocks f) : OnlyBlocks f.await where
  announced := h.announced
  dos d hd := by
    rcases List.mem_cons.1 hd with rfl | hd
    · exact Nat.le_refl _
    · exact h.dos d hd
  unannounced := h.unannounced
  blocks := h.blocks

theorem onlyBlocks_outermost : OnlyBlocks .outermost := ⟨⟨nofun, nofun⟩, rfl, nofun⟩

theorem OnlyBlocks.inStatements (hf : OnlyBlocks f) (h : s.In f) : s.inStatements = true := by
  unfold Terminators.inStatements
  rw [h.scopes]
  cases hscopes : f.scopes with
  | nil => rfl
  | cons scope outer =>
    rw [hf.blocks scope (by rw [hscopes]; exact List.mem_cons_self)]
    rfl

theorem OnlyBlocks.wordy (hf : OnlyBlocks f) (h : s.In f)
    (hdot : s.previous ≠ some (punctuator .dot))
    (hchain : s.previous ≠ some (punctuator .optionalChain)) : s.Wordy where
  dot := hdot
  chain := hchain
  scopes scope hscope := by
    rw [h.scopes] at hscope
    rw [hf.blocks scope (List.mem_of_mem_head? hscope)]
    rfl

theorem Ended.mayEnd (h : s.Ended f) : s.mayEnd = false := by
  rcases h.previous with hprevious | hprevious
  · simp [Terminators.mayEnd, hprevious, endsStatement]
  · simp [Terminators.mayEnd, hprevious, h.block hprevious, Scope.endsExpression]

theorem Ended.wordy (h : s.Ended f) (hf : OnlyBlocks f) : s.Wordy := by
  rcases h.previous with hprevious | hprevious
  · exact hf.wordy h.toIn (by simp [hprevious]) (by simp [hprevious])
  · exact hf.wordy h.toIn (by simp [hprevious]) (by simp [hprevious])

/-- Where no `do` waits, the next statement may start. -/
theorem Ended.ready (h : s.Ended f) (hquiet : f.Quiet) : s.Ready f where
  toCalm := h.toIn.calm hquiet
  ready := by
    rcases h.previous with hprevious | hprevious
    · exact .inr (.inl hprevious)
    · exact .inr (.inr (.inr (.inr (.inr (.inr ⟨hprevious, h.block hprevious⟩)))))

namespace Ready

theorem mayEnd (h : s.Ready f) : s.mayEnd = false := by
  rcases h.ready with h | h | h | h | h | ⟨h, h'⟩ | ⟨h, h'⟩
  all_goals simp [Terminators.mayEnd, endsStatement, Word.isContextual, Scope.endsExpression, *]

theorem needsTerminator (h : s.Ready f) (l : Lexeme) : s.needsTerminator l = false :=
  needsTerminator_of_mayEnd h.mayEnd l

theorem unannouncedScope (h : s.Ready f) : s.unannouncedScope = .block := by
  rcases h.ready with h | h | h | h | h | ⟨h, h'⟩ | ⟨h, h'⟩
  all_goals
    simp [Terminators.unannouncedScope, afterBlockOpener, afterBlock, Scope.endsExpression, *]

theorem braceScope (h : s.Ready f) (hf : OnlyBlocks f) : s.braceScope = (.block, []) := by
  have hannounced := h.announced.trans hf.unannounced
  unfold Terminators.braceScope
  rw [hannounced, h.unannouncedScope]

theorem wordy (h : s.Ready f) (hf : OnlyBlocks f) : s.Wordy := by
  apply hf.wordy h.toIn
  all_goals
    rcases h.ready with h | h | h | h | h | ⟨h, h'⟩ | ⟨h, h'⟩
    all_goals simp [h]

end Ready

/-! ## Heads of statements -/

/-- What may stand in the head of a statement. -/
def isInner : Piece → Prop
  | .name x => Word.ofText? x = none
  | .word w => w ∈ [Word.kwVar, .kwLet, .kwConst, .kwIn, .kwOf]
  | .punctuator p => p = .semicolon
  | .terminator _ => False

/-- The scopes of the heads of statements. -/
def isHead (scope : Scope) : Bool := scope = .head || scope = .doHead

theorem isHead_cases {scope : Scope} (h : isHead scope = true) :
    scope = .head ∨ scope = .doHead := by
  simpa [isHead] using h

theorem inStatements_head {scope : Scope} (hscope : isHead scope = true)
    (h : s.In (f.push scope)) : s.inStatements = false := by
  unfold inStatements
  rw [h.scopes]
  rcases isHead_cases hscope with rfl | rfl
  · rfl
  · rfl

theorem wordy_head {scope : Scope} (hscope : isHead scope = true) (h : s.In (f.push scope))
    {t : Terminal} (hprevious : s.previous = some t)
    (hdot : t ≠ punctuator .dot ∧ t ≠ punctuator .optionalChain) : s.Wordy where
  dot := by
    rw [hprevious]
    exact fun h => hdot.1 (Option.some.inj h)
  chain := by
    rw [hprevious]
    exact fun h => hdot.2 (Option.some.inj h)
  scopes inner hinner := by
    rw [h.scopes] at hinner
    obtain rfl : scope = inner := Option.some.inj hinner
    rcases isHead_cases hscope with rfl | rfl
    · rfl
    · rfl

/-- A semicolon in the head of a loop ends nothing. -/
theorem behind_after_semicolon (h : s.In f) (hin : ¬ s.inStatements = true) :
    (s.after (punctuator .semicolon)).Behind f (punctuator .semicolon) := by
  simp only [after, readPunctuator, if_neg hin]
  exact behind_remember h _ _

/-- A piece inside the head of a statement leads to the next one. -/
theorem passes_inner_step {scope : Scope} (hscope : isHead scope = true)
    (h : s.In (f.push scope)) (hs : s.Wordy) (hp : isInner p) :
    s.Takes p ∧ (s.after p.terminal).In (f.push scope) ∧ (s.after p.terminal).Wordy := by
  have hin := inStatements_head hscope h
  have hneeds := needsTerminator_of_inStatements hin
  cases p with
  | name x =>
    have hbehind := behind_after h (t := .name) rfl
    exact ⟨takes_name hp hneeds, hbehind.toIn,
      wordy_head hscope hbehind.toIn hbehind.previous ⟨nofun, nofun⟩⟩
  | word w =>
    have hw : w ∈ [Word.kwVar, .kwLet, .kwConst, .kwIn, .kwOf] := hp
    have hplain : isPlain (word w) = true ∧ w ≠ .kwFunction ∧ w ≠ .kwClass := by
      revert hw
      cases w <;> decide
    have hbehind := behind_after h hplain.1
    exact ⟨takes_word hs hneeds hplain.2, hbehind.toIn,
      wordy_head hscope hbehind.toIn hbehind.previous ⟨nofun, nofun⟩⟩
  | punctuator p =>
    obtain rfl : p = .semicolon := hp
    have hbehind := behind_after_semicolon h (by simp [hin])
    exact ⟨takes_semicolon hin, hbehind.toIn,
      wordy_head hscope hbehind.toIn hbehind.previous ⟨nofun, nofun⟩⟩
  | terminator tight => exact hp.elim

/-- The head of a statement is read up to its closing parenthesis. -/
theorem exists_passes_inner {scope : Scope} (hscope : isHead scope = true)
    (h : s.In (f.push scope)) (hs : s.Wordy) (hps : ∀ p ∈ ps, isInner p) :
    ∃ s', Passes s ps s' ∧ s'.In (f.push scope) := by
  induction ps generalizing s with
  | nil => exact ⟨s, .nil, h⟩
  | cons p ps ih =>
    obtain ⟨hp, hps⟩ := List.forall_mem_cons.1 hps
    obtain ⟨htakes, hafter, hwordy⟩ := passes_inner_step hscope h hs hp
    obtain ⟨s', hpasses, hin⟩ := ih hafter hwordy hps
    exact ⟨s', .cons htakes hpasses, hin⟩

/-- What is in parentheses behind the word of a statement. -/
theorem exists_passes_parenthesized (scope : Scope) (hscope : isHead scope = true)
    (hneeds : ∀ l, s.needsTerminator l = false)
    (hopen : (s.after (punctuator .leftParen)).In (f.push scope)) (hps : ∀ p ∈ ps, isInner p) :
    ∃ s', Passes s (.punctuator .leftParen :: (ps ++ [.punctuator .rightParen])) s' ∧
      s'.Behind f (punctuator .rightParen) ∧ s'.previousScope = some scope := by
  obtain ⟨s', hpasses, hin⟩ :=
    exists_passes_inner hscope hopen (wordy_head hscope hopen rfl ⟨nofun, nofun⟩) hps
  have htakes := takes_closer hin.scopes
    (needsTerminator_of_inStatements (inStatements_head hscope hin))
  have hpast := past_after_closer (C := (· = scope)) hin rfl
  have hcloser : scope.closer = .rightParen := by
    rcases isHead_cases hscope with rfl | rfl
    · rfl
    · rfl
  rw [hcloser] at htakes hpast
  obtain ⟨_, hclosed, rfl⟩ := hpast.closed
  exact ⟨_, .cons (takes_leftParen hneeds) (hpasses.append (.cons htakes .nil)), hpast.toBehind,
    hclosed⟩

/-- The head of a branch or a loop, from its parenthesis on; what it runs may start behind it. -/
theorem exists_passes_head (h : s.In f) (hend : s.mayEnd = false) (hhead : s.afterHeadWord = true)
    (hps : ∀ p ∈ ps, isInner p) :
    ∃ s', Passes s (.punctuator .leftParen :: (ps ++ [.punctuator .rightParen])) s' ∧
      s'.Ready f := by
  have hopens : Opens (fun s => s.In f ∧ s.afterHeadWord = true) .leftParen .rightParen f (· = .head) :=
    opens_head fun _ => id
  obtain ⟨_, rfl, -, hopen⟩ := hopens s ⟨h, hhead⟩
  obtain ⟨s', hpasses, hbehind, hscope⟩ := exists_passes_parenthesized .head rfl
    (needsTerminator_of_mayEnd hend) hopen hps
  refine ⟨s', hpasses, hbehind.calm nofun nofun, ?_⟩
  exact .inr (.inr (.inr (.inr (.inr (.inl ⟨hbehind.previous, hscope⟩)))))

/-- Words that no statement ends with. -/
theorem mayEnd_word (h : s.previous = some (word w)) (hw : endsStatement (word w) = false) :
    s.mayEnd = false := by
  simp only [mayEnd, h, hw]

theorem Passes.headed (h : Passes s (.word w :: .punctuator .leftParen ::
    (ps ++ [.punctuator .rightParen])) s') (h' : Passes s' qs s'') :
    Passes s (Node.headed w ps qs) s'' := by
  have hall := h.append h'
  rwa [List.cons_append, List.cons_append, List.append_assoc] at hall

/-- The word and the head of a branch or a loop. -/
theorem Ready.exists_passes_headed (hs : s.Ready f) (hf : OnlyBlocks f)
    (hw : w ∈ [Word.kwIf, .kwFor, .kwWhile]) (hps : ∀ p ∈ ps, isInner p) :
    ∃ s', Passes s (.word w :: .punctuator .leftParen :: (ps ++ [.punctuator .rightParen])) s' ∧
      s'.Ready f := by
  have hbehind : (s.after (word w)).Behind f (word w) := by
    simp only [List.mem_cons, List.not_mem_nil, or_false] at hw
    rcases hw with rfl | rfl | rfl
    · exact behind_after hs.toIn rfl
    · exact behind_after hs.toIn rfl
    · exact behind_after_while hs.toCalm
  have hplain : w ≠ .kwFunction ∧ w ≠ .kwClass ∧ endsStatement (word w) = false := by
    revert hw
    cases w <;> decide
  have hhead : (s.after (word w)).afterHeadWord = true := by
    simp only [List.mem_cons, List.not_mem_nil, or_false] at hw
    rcases hw with rfl | rfl | rfl
    all_goals simp [afterHeadWord, hbehind.previous]
  obtain ⟨s', hpasses, hready⟩ := exists_passes_head hbehind.toIn
    (mayEnd_word hbehind.previous hplain.2.2) hhead hps
  have htakes := takes_word (hs.wordy hf) hs.needsTerminator ⟨hplain.1, hplain.2.1⟩
  exact ⟨s', .cons htakes hpasses, hready⟩

/-- The words and the head of a loop that waits for each item. -/
theorem Ready.exists_passes_await (hs : s.Ready f) (hf : OnlyBlocks f) (hps : ∀ p ∈ ps, isInner p) :
    ∃ s', Passes s (.word .kwFor :: .word .kwAwait :: .punctuator .leftParen ::
      (ps ++ [.punctuator .rightParen])) s' ∧ s'.Ready f := by
  have hfor := takes_word (hs.wordy hf) hs.needsTerminator (w := .kwFor) (by decide)
  have hbehind := behind_after hs.toIn (t := word .kwFor) rfl
  have hwordy := hf.wordy hbehind.toIn (by simp [hbehind.previous]) (by simp [hbehind.previous])
  have hawait := takes_word hwordy (needsTerminator_of_mayEnd (mayEnd_word hbehind.previous rfl))
    (w := .kwAwait) (by decide)
  have hbehind' := behind_after hbehind.toIn (t := word .kwAwait) rfl
  have hbefore : ((s.after (word .kwFor)).after (word .kwAwait)).beforePrevious =
      some (word .kwFor) := hbehind.previous
  have hhead : ((s.after (word .kwFor)).after (word .kwAwait)).afterHeadWord = true := by
    simp [afterHeadWord, hbehind'.previous, hbefore]
  obtain ⟨s', hpasses, hready⟩ := exists_passes_head hbehind'.toIn
    (mayEnd_word hbehind'.previous rfl) hhead hps
  exact ⟨s', .cons hfor (.cons hawait hpasses), hready⟩

/-- The condition behind the body of a `do`. -/
theorem Ended.exists_passes_condition (hs : s.Ended f.await) (hf : OnlyBlocks f)
    (hps : ∀ p ∈ ps, isInner p) :
    ∃ s', Passes s (Node.headed .kwWhile ps [.terminator true]) s' ∧ s'.Ended f := by
  have hwhile := takes_word (hs.wordy hf.await) (needsTerminator_of_mayEnd hs.mayEnd)
    (w := .kwWhile) (by decide)
  have hdue := due_after_while hs.toDone
  generalize hnext : s.after (word .kwWhile) = next at hdue
  have hprevious : next.previous = some (word .kwWhile) ∧ next.doConditionDue = true := by
    rw [← hnext]
    have hcloses : (s.dos.head? = some s.scopes.length &&
        (s.previous = some (punctuator .rightBrace) || s.previous = some .terminator)) = true := by
      rw [hs.dos, hs.scopes]
      rcases hs.previous with hprevious | hprevious <;> simp [Frame.await, hprevious]
    simp only [after, readWord, hcloses]
    exact ⟨rfl, rfl⟩
  have hend := mayEnd_word hprevious.1 rfl
  have hhead : next.afterHeadWord = true := by simp [afterHeadWord, hprevious.1]
  have hopen : (next.after (punctuator .leftParen)).In (f.push .doHead) := by
    simp only [after, readPunctuator, hhead, hprevious.2, if_true]
    exact ⟨congrArg _ hdue.waiting.scopes, hdue.waiting.announced, hdue.waiting.dos, rfl,
      hdue.waiting.label⟩
  obtain ⟨s', hpasses, hbehind, -⟩ := exists_passes_parenthesized .doHead rfl
    (needsTerminator_of_mayEnd hend) hopen hps
  have hterminator := takes_terminator true (hf.inStatements hbehind.toIn) (.inr rfl)
  have hdone := behind_after hbehind.toIn (t := .terminator) rfl
  rw [← hnext] at hpasses
  refine ⟨_, (Passes.cons hwhile hpasses).headed (.cons hterminator .nil),
    ⟨hdone.toIn, .inl hdone.previous⟩, ?_⟩
  intro hbrace
  cases hdone.previous.symm.trans hbrace

/-! ## Statements -/

open Node (Named DeclaresName Structured StructuredModule)

variable {closed : Bool} {n e left : Node}

theorem Named.inner (h : e.Named) : ∀ p ∈ e.pieces, isInner p := by
  cases h with
  | mk _ hword =>
    intro p hp
    rw [List.mem_singleton.1 hp]
    exact hword

theorem inner_option {e : Option Node} (h : ∀ x ∈ e, x.Named) :
    ∀ p ∈ (e.map Node.pieces).getD [], isInner p := by
  cases e with
  | none => exact nofun
  | some e => exact Named.inner (h e rfl)

theorem DeclaresName.inner (h : left.DeclaresName) : ∀ p ∈ left.pieces, isInner p := by
  cases h with
  | @mk loc loc' w id hw hid =>
    have hinner : isInner (.word w) := by
      show w ∈ _
      revert hw
      cases w <;> decide
    rw [Node.pieces_declaration]
    exact List.forall_mem_cons.2 ⟨hinner, Named.inner hid⟩

theorem inner_word (hw : w ∈ [Word.kwVar, .kwLet, .kwConst, .kwIn, .kwOf]) : isInner (.word w) := hw

theorem inner_between {p : Piece} (hps : ∀ p ∈ ps, isInner p) (hp : isInner p)
    (hqs : ∀ p ∈ qs, isInner p) : ∀ q ∈ ps ++ p :: qs, isInner q := by
  intro q hq
  rcases List.mem_append.1 hq with hq | hq
  · exact hps q hq
  · exact (List.forall_mem_cons.2 ⟨hp, hqs⟩) q hq

/-- A word behind which a statement starts. -/
theorem Behind.ready (h : s.Behind f (word w)) (hw : w = .kwElse ∨ w = .kwDo) : s.Ready f where
  toCalm := h.calm nofun nofun
  ready := by
    rcases hw with rfl | rfl
    · exact .inr (.inr (.inl h.previous))
    · exact .inr (.inr (.inr (.inl h.previous)))

/-- A semicolon ends a statement. -/
theorem ended_terminator (h : s.In f) : (s.after .terminator).Ended f where
  toDone := ⟨(behind_after h rfl).toIn, .inl (behind_after h rfl).previous⟩
  block hbrace := nomatch (behind_after (t := .terminator) h rfl).previous.symm.trans hbrace

/-- Statements one after the other, where no `do` waits. -/
theorem exists_passes_statements {statements : List Node}
    (ih : ∀ n ∈ statements, ∀ s : Terminators, s.Ready f → ∃ s', Passes s n.pieces s' ∧ s'.Ended f)
    (hquiet : f.Quiet) (hs : s.Ready f) :
    ∃ s', Passes s (statements.map Node.pieces).flatten s' ∧ s'.Ready f := by
  induction statements generalizing s with
  | nil => exact ⟨s, .nil, hs⟩
  | cons n statements ihs =>
    obtain ⟨hn, hrest⟩ := List.forall_mem_cons.1 ih
    obtain ⟨s₁, hpasses₁, hended⟩ := hn s hs
    obtain ⟨s₂, hpasses₂, hready⟩ := ihs hrest (hended.ready hquiet)
    exact ⟨s₂, hpasses₁.append hpasses₂, hready⟩

/-- No terminator is inserted into a statement, and none is due behind it. -/
theorem exists_passes (h : n.Structured closed) (hf : OnlyBlocks f) (hs : s.Ready f) :
    ∃ s', Passes s n.pieces s' ∧ s'.Ended f := by
  induction h generalizing f s with
  | @expression loc e he =>
    cases he with
    | @mk loc' x _ hword =>
      have hname := takes_name hword hs.needsTerminator
      have hbehind := behind_after hs.toIn (t := .name) rfl
      have hterminator := takes_terminator true (hf.inStatements hbehind.toIn) (.inr rfl)
      exact ⟨_, .cons hname (.cons hterminator .nil), ended_terminator hbehind.toIn⟩
  | empty =>
    have hterminator := takes_terminator false (hf.inStatements hs.toIn) (.inl hs.mayEnd)
    exact ⟨_, .cons hterminator .nil, ended_terminator hs.toIn⟩
  | @block loc statements _ ih =>
    have hbrace := hs.braceScope hf
    have hopen := takes_leftBrace hs.needsTerminator (by rw [hbrace])
    have hready : (s.after (punctuator .leftBrace)).Ready (f.push .block) := by
      have hprevious :
          (s.after (punctuator .leftBrace)).previous = some (punctuator .leftBrace) := by
        simp [after, readPunctuator, hbrace, remember]
      refine ⟨In.calm ?_ (hf.toSound.quiet_push _), .inr (.inr (.inr (.inr (.inl hprevious))))⟩
      show ({ s with
        scopes := s.braceScope.1 :: s.scopes, announced := s.braceScope.2 }.remember _ _).In _
      rw [hbrace]
      exact ⟨congrArg _ hs.scopes, hf.unannounced.symm, hs.dos, hs.due, hs.label⟩
    obtain ⟨s', hpasses, hready'⟩ := exists_passes_statements
      (fun n hn s hs => ih n hn hf.push hs) (hf.toSound.quiet_push _) hready
    have hclose := takes_closer hready'.scopes hready'.needsTerminator
    have hbehind := behind_after_closer hready'.toIn
    rw [Node.pieces_block]
    refine ⟨_, .cons hopen (hpasses.append (.cons hclose .nil)), hbehind.done, fun _ => ?_⟩
    simp [after, readPunctuator, closeScope, hready'.scopes, Frame.push, Scope.closer, remember,
      Piece.terminal]
  | @ifOnly loc test consequent htest _ ih =>
    obtain ⟨s₁, hpasses₁, hready⟩ :=
      hs.exists_passes_headed hf (w := .kwIf) (by decide) (Named.inner htest)
    obtain ⟨s₂, hpasses₂, hended⟩ := ih hf hready
    exact ⟨s₂, hpasses₁.headed hpasses₂, hended⟩
  | @ifElse loc test consequent alternate htest _ _ _ ih ih' =>
    obtain ⟨s₁, hpasses₁, hready⟩ :=
      hs.exists_passes_headed hf (w := .kwIf) (by decide) (Named.inner htest)
    obtain ⟨s₂, hpasses₂, hended⟩ := ih hf hready
    have helse := takes_word (hended.wordy hf) (needsTerminator_of_mayEnd hended.mayEnd)
      (w := .kwElse) (by decide)
    have hbehind := behind_after hended.toIn (t := word .kwElse) rfl
    obtain ⟨s₃, hpasses₃, hended'⟩ := ih' hf (hbehind.ready (.inl rfl))
    exact ⟨s₃, hpasses₁.headed (hpasses₂.append (.cons helse hpasses₃)), hended'⟩
  | @forLoop loc init test update loop hinit htest hupdate _ ih =>
    have hinner := inner_between (p := .punctuator .semicolon) (inner_option hinit) rfl
      (inner_between (p := .punctuator .semicolon) (inner_option htest) rfl (inner_option hupdate))
    obtain ⟨s₁, hpasses₁, hready⟩ := hs.exists_passes_headed hf (w := .kwFor) (by decide) hinner
    obtain ⟨s₂, hpasses₂, hended⟩ := ih hf hready
    rw [Node.pieces_forLoop]
    exact ⟨s₂, hpasses₁.headed hpasses₂, hended⟩
  | @forIn loc left right loop hleft hright _ ih =>
    have hinner := inner_between (DeclaresName.inner hleft) (inner_word (w := .kwIn) (by decide))
      (Named.inner hright)
    obtain ⟨s₁, hpasses₁, hready⟩ := hs.exists_passes_headed hf (w := .kwFor) (by decide) hinner
    obtain ⟨s₂, hpasses₂, hended⟩ := ih hf hready
    exact ⟨s₂, hpasses₁.headed hpasses₂, hended⟩
  | @forOf loc left right loop isAwait hleft hright _ ih =>
    have hinner := inner_between (DeclaresName.inner hleft) (inner_word (w := .kwOf) (by decide))
      (Named.inner hright)
    cases isAwait with
    | false =>
      obtain ⟨s₁, hpasses₁, hready⟩ := hs.exists_passes_headed hf (w := .kwFor) (by decide) hinner
      obtain ⟨s₂, hpasses₂, hended⟩ := ih hf hready
      exact ⟨s₂, hpasses₁.headed hpasses₂, hended⟩
    | true =>
      obtain ⟨s₁, hpasses₁, hready⟩ := hs.exists_passes_await hf hinner
      obtain ⟨s₂, hpasses₂, hended⟩ := ih hf hready
      have hall := hpasses₁.append hpasses₂
      refine ⟨s₂, ?_, hended⟩
      rwa [List.cons_append, List.cons_append, List.cons_append, List.append_assoc] at hall
  | @whileLoop loc test loop htest _ ih =>
    obtain ⟨s₁, hpasses₁, hready⟩ := hs.exists_passes_headed hf (w := .kwWhile) (by decide)
      (Named.inner htest)
    obtain ⟨s₂, hpasses₂, hended⟩ := ih hf hready
    exact ⟨s₂, hpasses₁.headed hpasses₂, hended⟩
  | @doWhile loc loop test _ htest ih =>
    have hdo := takes_word (hs.wordy hf) hs.needsTerminator (w := .kwDo) (by decide)
    have hbehind := behind_after_do hs.toIn
    obtain ⟨s₁, hpasses₁, hended⟩ := ih hf.await (hbehind.ready (.inr rfl))
    obtain ⟨s₂, hpasses₂, hended'⟩ := hended.exists_passes_condition hf (Named.inner htest)
    exact ⟨s₂, .cons hdo (hpasses₁.append hpasses₂), hended'⟩

/-- The lexemes of a module made of branches and loops are the tokens of its pieces. -/
theorem exists_tokens {m : Node} (h : m.StructuredModule closed) {ls : List Lexeme}
    (hls : List.Forall₂ Piece.Spells m.pieces ls) :
    ∃ ts, TokenStream.ofLexemes ls = ⟨ts, none⟩ ∧ List.Forall₂ Piece.Reads m.pieces ts := by
  cases h with
  | @mk loc statements hbody =>
    have hstart : ({} : Terminators).In Frame.outermost := ⟨rfl, rfl, rfl, rfl, nofun⟩
    have hready : ({} : Terminators).Ready Frame.outermost :=
      ⟨hstart.calm Frame.quiet_outermost, .inl rfl⟩
    obtain ⟨s', hpasses, hready'⟩ := exists_passes_statements
      (fun n hn s hs => exists_passes (hbody n hn) onlyBlocks_outermost hs)
      Frame.quiet_outermost hready
    rw [Node.pieces_program] at hls ⊢
    exact hpasses.exists_tokens hls hready'.mayEnd hready'.scopes none

end Terminators

end ModuleLowering
