import ModuleLowering.Token.Terminator

/-!
# Replaying tokens

The state that the insertion of terminators is in follows from the terminals read so far. So it can
be followed along the tokens that a parser takes, and what a rule of the grammar takes says how the
state moves: brackets open and close a scope, announced scopes are taken up, a `do` meets its
`while`, the colon of a label comes.
-/

set_option autoImplicit false

namespace ModuleLowering

namespace Terminators

open Terminal (word punctuator)

/-! ## One token -/

/-- The state after `function` or `class` has announced a scope. -/
def announce (s : Terminators) (w : Word) (scope : Scope) : Terminators :=
  { s with announced := (s.scopes.length, scope) :: s.announced }.remember (.word w) none

/-- The state after a token. -/
def after (s : Terminators) : Terminal → Terminators
  | .functionDeclaration => s.announce .kwFunction .block
  | .classDeclaration => s.announce .kwClass .classBody
  | .word .kwFunction => s.announce .kwFunction .expressionBlock
  | .word .kwClass => s.announce .kwClass .classExpressionBody
  | .word w => (s.readWord w).2
  | .objectBrace => { s with scopes := .object :: s.scopes }.remember .objectBrace (some .object)
  | .punctuator p =>
    match s.readPunctuator p with
    | .ok (_, next) => next
    | .error _ => s
  | t => s.remember t none

/-- No announced scope is that of an object. -/
def AnnouncesBodies (s : Terminators) : Prop := ∀ a ∈ s.announced, a.2 ≠ .object

theorem braceScope_announces {s : Terminators} (h : s.AnnouncesBodies) :
    (∀ a ∈ s.braceScope.2, a.2 ≠ .object) ∧
      (s.braceScope.1 = .object → s.braceScope.2 = s.announced) := by
  unfold braceScope
  split
  · rename_i announced depth scope rest hannounced
    have hscope : scope ≠ .object := h (depth, scope) (by rw [hannounced]; exact List.mem_cons_self)
    by_cases hdepth : depth = s.scopes.length
    · rw [if_pos hdepth]
      refine ⟨fun a ha => h a ?_, fun hobject => absurd hobject hscope⟩
      rw [hannounced]
      exact List.mem_cons_of_mem _ ha
    · rw [if_neg hdepth]
      exact ⟨h, fun _ => rfl⟩
  · exact ⟨h, fun _ => rfl⟩

theorem announce_announcesBodies {s : Terminators} (h : s.AnnouncesBodies) (w : Word)
    {scope : Scope} (hscope : scope ≠ .object) : (s.announce w scope).AnnouncesBodies := by
  intro a ha
  rcases List.mem_cons.1 ha with rfl | ha
  · exact hscope
  · exact h a ha

theorem readWord_after {s next : Terminators} {w : Word} {t : Terminal}
    (hs : s.AnnouncesBodies) (h : s.readWord w = (t, next)) :
    next = s.after t ∧ next.AnnouncesBodies := by
  cases w
  case kwFunction =>
    simp only [readWord, if_true] at h
    generalize (if s.previous = some (word .kwAsync) then s.asyncAtStart
      else s.atStatementStart) = declares at h
    cases declares <;> cases h <;> exact ⟨rfl, announce_announcesBodies hs _ (by decide)⟩
  case kwClass =>
    simp only [readWord, reduceCtorEq, if_false] at h
    generalize (if s.previous = some (word .kwAsync) then s.asyncAtStart
      else s.atStatementStart) = declares at h
    cases declares <;> cases h <;> exact ⟨rfl, announce_announcesBodies hs _ (by decide)⟩
  case kwWhile =>
    cases h
    refine ⟨rfl, ?_⟩
    simp only [AnnouncesBodies, remember]
    split <;> exact hs
  all_goals
    cases h
    exact ⟨rfl, hs⟩

theorem readPunctuator_after {s next : Terminators} {p : Punctuator} {t : Terminal}
    (hs : s.AnnouncesBodies) (h : s.readPunctuator p = .ok (t, next)) :
    next = s.after t ∧ next.AnnouncesBodies := by
  have hother : ∀ u, s.readPunctuator p = .ok (.punctuator p, u) →
      u = s.after (.punctuator p) := by
    intro u hu
    simp only [after, hu]
  cases p
  case leftBrace =>
    obtain ⟨hbodies, hobject⟩ := braceScope_announces hs
    simp only [readPunctuator, Except.ok.injEq, Prod.mk.injEq] at h
    obtain ⟨rfl, rfl⟩ := h
    refine ⟨?_, hbodies⟩
    by_cases hscope : s.braceScope.1 = .object
    · rw [hobject hscope, hscope]
      rfl
    · simp only [if_neg hscope, after, readPunctuator]
  case semicolon =>
    simp only [readPunctuator] at h
    split at h
    · cases h
      exact ⟨rfl, hs⟩
    · cases h
      exact ⟨hother _ (by simp only [readPunctuator]; rw [if_neg ‹_›]), hs⟩
  case colon =>
    simp only [readPunctuator] at h
    split at h
    · cases h
      exact ⟨hother _ (by simp only [readPunctuator]; rw [if_pos ‹_›]), hs⟩
    · cases h
      exact ⟨hother _ (by simp only [readPunctuator]; rw [if_neg ‹_›]), hs⟩
  case rightBrace | rightParen | rightBracket =>
    all_goals
      simp only [readPunctuator, closeScope] at h
      split at h
      · cases h
      · split at h
        · cases h
          refine ⟨hother _ ?_, hs⟩
          simp only [readPunctuator, closeScope, *, if_true]
        · cases h
  all_goals
    cases h
    exact ⟨rfl, hs⟩

/-- What is read of a lexeme is what its terminal says. -/
theorem read_after {s next : Terminators} {l : Lexeme} {follow : Option Lexeme} {t : Terminal}
    (hs : s.AnnouncesBodies) (h : s.read l follow = .ok (t, next)) :
    next = s.after t ∧ next.AnnouncesBodies := by
  unfold read at h
  split at h
  case h_5 =>
    split at h
    · cases h
      exact ⟨rfl, hs⟩
    · exact readWord_after hs (Except.ok.inj h)
  case h_6 => exact readPunctuator_after hs h
  all_goals
    cases h
    exact ⟨rfl, hs⟩

end Terminators

/-! ## Frames -/

/-- What a state knows of the brackets, bodies and statements that are still open. -/
structure Frame where
  scopes : List Scope
  announced : List (Nat × Scope)
  dos : List Nat
  /-- Whether the colon of a label may be due. -/
  label : Bool

namespace Frame

/-- Nothing is open. -/
def outermost : Frame := ⟨[], [], [], false⟩

def push (f : Frame) (scope : Scope) : Frame := { f with scopes := scope :: f.scopes }

def announce (f : Frame) (scope : Scope) : Frame :=
  { f with announced := (f.scopes.length, scope) :: f.announced }

/-- A `do` waits for its `while`. -/
def await (f : Frame) : Frame := { f with dos := f.scopes.length :: f.dos }

/-- No announced scope, and no `do`, waits inside a bracket that is closed. -/
structure Sound (f : Frame) : Prop where
  announced : ∀ a ∈ f.announced, a.1 ≤ f.scopes.length
  dos : ∀ d ∈ f.dos, d ≤ f.scopes.length

/-- No scope is announced for the next brace. -/
structure Unannounced (f : Frame) : Prop extends f.Sound where
  strict : ∀ a ∈ f.announced, a.1 < f.scopes.length

/-- The same frame, but for its label. -/
def labelled (f : Frame) (label : Bool) : Frame := { f with label := label }

/-- No `do` waits directly here. -/
def Quiet (f : Frame) : Prop := f.dos.head? ≠ some f.scopes.length

variable {f : Frame}

theorem Sound.push (h : f.Sound) (scope : Scope) : (f.push scope).Unannounced where
  announced a ha := Nat.le_succ_of_le (h.announced a ha)
  dos d hd := Nat.le_succ_of_le (h.dos d hd)
  strict a ha := Nat.lt_succ_of_le (h.announced a ha)

theorem Sound.quiet_push (h : f.Sound) (scope : Scope) : (f.push scope).Quiet := by
  intro hhead
  have hd := h.dos _ (List.mem_of_mem_head? hhead)
  exact absurd hd (Nat.not_succ_le_self _)

theorem Sound.announce (h : f.Sound) (scope : Scope) : (f.announce scope).Sound where
  announced a ha := by
    rcases List.mem_cons.1 ha with rfl | ha
    · exact Nat.le_refl _
    · exact h.announced a ha
  dos := h.dos

theorem Unannounced.labelled (h : f.Unannounced) (label : Bool) : (f.labelled label).Unannounced :=
  ⟨⟨h.announced, h.dos⟩, h.strict⟩

theorem Unannounced.await (h : f.Unannounced) : f.await.Unannounced where
  announced := h.announced
  dos d hd := by
    rcases List.mem_cons.1 hd with rfl | hd
    · exact Nat.le_refl _
    · exact h.dos d hd
  strict := h.strict

theorem unannounced_outermost : outermost.Unannounced := ⟨⟨nofun, nofun⟩, nofun⟩

theorem quiet_outermost : outermost.Quiet := nofun

end Frame

namespace Terminators

open Terminal (word punctuator)

/-- The brackets, bodies and statements that are open in a state are those of a frame. -/
structure In (s : Terminators) (f : Frame) : Prop where
  scopes : s.scopes = f.scopes
  announced : s.announced = f.announced
  dos : s.dos = f.dos
  due : s.doConditionDue = false
  label : s.labelOpen = true → f.label = true

/-- A state in a frame, behind a token. -/
structure Behind (s : Terminators) (f : Frame) (t : Terminal) : Prop extends s.In f where
  previous : s.previous = some t

/-- A state in a frame, behind no terminator. -/
structure Mid (s : Terminators) (f : Frame) : Prop extends s.In f where
  previous : s.previous ≠ some .terminator

/-- A state in a frame, behind a token that ends a statement. -/
structure Done (s : Terminators) (f : Frame) : Prop extends s.In f where
  previous : s.previous = some .terminator ∨ s.previous = some (punctuator .rightBrace)

/-- A state in a frame, before anything or behind a token that ends a statement. -/
structure Settled (s : Terminators) (f : Frame) : Prop extends s.In f where
  previous : s.previous = none ∨ s.previous = some .terminator ∨
    s.previous = some (punctuator .rightBrace)

/-- A state in which a `while` starts a statement: no `do` waits for it, or no statement has ended
right before it. -/
structure Calm (s : Terminators) (f : Frame) : Prop extends s.In f where
  calm : f.Quiet ∨
    (s.previous ≠ some .terminator ∧ s.previous ≠ some (punctuator .rightBrace))

/-- A state in a frame, behind a bracket that closes a scope of a kind. -/
structure Past (s : Terminators) (f : Frame) (c : Punctuator) (C : Scope → Prop) : Prop
    extends s.Behind f (punctuator c) where
  closed : ∃ scope, s.previousScope = some scope ∧ C scope

/-- A state in a frame, behind a token that ends a statement and no expression. -/
structure Finished (s : Terminators) (f : Frame) : Prop extends s.Done f where
  finished : s.mayEnd = false

/-- A state in which a statement starts: none can end there, and a brace opens a block. -/
structure Starting (s : Terminators) (f : Frame) : Prop extends s.Calm f where
  started : s.mayEnd = false
  block : s.unannouncedScope = .block

variable {s : Terminators} {f : Frame} {t : Terminal}

theorem In.toIn (h : s.In f) : s.In f := h

theorem In.labelled (h : s.In f) (label : Bool) : s.In (f.labelled (f.label || label)) :=
  ⟨h.scopes, h.announced, h.dos, h.due, fun hlabel => by simp [Frame.labelled, h.label hlabel]⟩

theorem Mid.labelled (h : s.Mid f) (label : Bool) : s.Mid (f.labelled (f.label || label)) :=
  ⟨h.toIn.labelled label, h.previous⟩

theorem Done.relabelled {a b : Bool} (h : s.Done (f.labelled a)) (hab : a = true → b = true) :
    s.Done (f.labelled b) :=
  ⟨⟨h.scopes, h.announced, h.dos, h.due, fun hlabel => hab (h.label hlabel)⟩, h.previous⟩

theorem Done.labelled (h : s.Done f) (label : Bool) : s.Done (f.labelled (f.label || label)) :=
  ⟨h.toIn.labelled label, h.previous⟩

theorem Behind.mid (h : s.Behind f t) (ht : t ≠ .terminator) : s.Mid f where
  toIn := h.toIn
  previous hprevious := ht (Option.some.inj (h.previous.symm.trans hprevious))

theorem Behind.done (h : s.Behind f (.punctuator .rightBrace)) : s.Done f := ⟨h.toIn, .inr h.previous⟩

theorem Past.finished {C : Scope → Prop} (h : s.Past f .rightBrace C)
    (hC : ∀ scope, C scope → scope.endsExpression = false) : s.Finished f := by
  obtain ⟨scope, hscope, hclosed⟩ := h.closed
  refine ⟨h.toBehind.done, ?_⟩
  simp [mayEnd, h.previous, hscope, hC scope hclosed]

theorem Finished.relabelled {a b : Bool} (h : s.Finished (f.labelled a))
    (hab : a = true → b = true) : s.Finished (f.labelled b) :=
  ⟨h.toDone.relabelled hab, h.finished⟩

theorem Finished.labelled (h : s.Finished f) (label : Bool) :
    s.Finished (f.labelled (f.label || label)) := ⟨h.toDone.labelled label, h.finished⟩

theorem Done.settled (h : s.Done f) : s.Settled f := ⟨h.toIn, .inr h.previous⟩

theorem In.calm (h : s.In f) (hquiet : f.Quiet) : s.Calm f := ⟨h, .inl hquiet⟩

theorem Behind.calm (h : s.Behind f t) (ht : t ≠ .terminator)
    (ht' : t ≠ punctuator .rightBrace) : s.Calm f := by
  refine ⟨h.toIn, .inr ?_⟩
  rw [h.previous]
  exact ⟨fun h => ht (Option.some.inj h), fun h => ht' (Option.some.inj h)⟩

/-! ## Tokens that open and close nothing -/

/-- Terminals that leave the frame as it is. -/
def isPlain : Terminal → Bool
  | word w => !(List.contains [.kwFunction, .kwClass, .kwCase, .kwDefault, .kwDo, .kwWhile] w)
  | punctuator p =>
    !(List.contains [.leftParen, .leftBracket, .leftBrace, .rightParen, .rightBracket, .rightBrace,
      .semicolon, .colon] p)
  | .objectBrace | .functionDeclaration | .classDeclaration => false
  | _ => true

theorem behind_remember (h : s.In f) (t : Terminal) (scope : Option Scope) :
    (s.remember t scope).Behind f t := ⟨⟨h.scopes, h.announced, h.dos, h.due, h.label⟩, rfl⟩

theorem behind_after (h : s.In f) (ht : isPlain t = true) : (s.after t).Behind f t := by
  cases t
  case word w =>
    cases w
    case kwFunction | kwClass | kwCase | kwDefault | kwDo | kwWhile => all_goals cases ht
    all_goals exact ⟨⟨h.scopes, h.announced, h.dos, h.due, h.label⟩, rfl⟩
  case punctuator p =>
    cases p
    case leftParen | leftBracket | leftBrace | rightParen | rightBracket | rightBrace | semicolon |
      colon => all_goals cases ht
    all_goals exact behind_remember h _ _
  case objectBrace | functionDeclaration | classDeclaration => all_goals cases ht
  all_goals exact behind_remember h _ _

theorem finished_after_terminator (h : s.In f) : (s.after .terminator).Finished f :=
  ⟨⟨(behind_after h rfl).toIn, .inl rfl⟩, rfl⟩

/-! ## Brackets -/

/-- A state in a frame, whether or not the condition of a `do` is due. -/
structure Due (s : Terminators) (f : Frame) : Prop where
  waiting : ({ s with doConditionDue := false } : Terminators).In f

theorem In.toDue (h : s.In f) : s.Due f :=
  ⟨⟨h.scopes, h.announced, h.dos, rfl, h.label⟩⟩

theorem in_after_leftBracket (h : s.In f) :
    (s.after (punctuator .leftBracket)).In (f.push .bracket) :=
  ⟨congrArg _ h.scopes, h.announced, h.dos, h.due, h.label⟩

theorem in_after_objectBrace (h : s.In f) : (s.after .objectBrace).In (f.push .object) :=
  ⟨congrArg _ h.scopes, h.announced, h.dos, h.due, h.label⟩

theorem past_after_closer {C : Scope → Prop} {scope : Scope} (h : s.In (f.push scope))
    (hC : C scope) : (s.after (punctuator scope.closer)).Past f scope.closer C := by
  have hclose : s.closeScope scope.closer =
      .ok (punctuator scope.closer,
        { s with scopes := f.scopes }.remember (punctuator scope.closer) (some scope)) := by
    unfold closeScope
    rw [h.scopes]
    simp [Frame.push]
  have hread : s.readPunctuator scope.closer = s.closeScope scope.closer := by
    cases scope <;> rfl
  show (match s.readPunctuator scope.closer with
    | .ok (_, next) => next
    | .error _ => s).Past f _ _
  rw [hread, hclose]
  have hin : ({ s with scopes := f.scopes } : Terminators).In f :=
    ⟨rfl, h.announced, h.dos, h.due, h.label⟩
  exact ⟨behind_remember hin _ _, scope, rfl, hC⟩

theorem behind_after_closer {scope : Scope} (h : s.In (f.push scope)) :
    (s.after (punctuator scope.closer)).Behind f (punctuator scope.closer) :=
  (past_after_closer (C := fun _ => True) h trivial).toBehind

/-- From the states of a kind a bracket opens a scope of a kind in a frame. -/
def Opens (P : Terminators → Prop) (p c : Punctuator) (f : Frame) (C : Scope → Prop) : Prop :=
  ∀ s, P s → ∃ scope, C scope ∧ scope.closer = c ∧ (s.after (punctuator p)).In (f.push scope)

theorem opens_leftParen : Opens (·.Due f) .leftParen .rightParen f fun _ => True := by
  refine fun s h => ⟨if s.afterHeadWord then if s.doConditionDue then .doHead else .head
    else .parenthesis, trivial, ?_, ?_⟩
  · split
    · split <;> rfl
    · rfl
  · exact ⟨congrArg _ h.waiting.scopes, h.waiting.announced, h.waiting.dos, rfl, h.waiting.label⟩

/-- Where a statement has just started with a word, a parenthesis is its head. -/
theorem opens_head {P : Terminators → Prop} (hP : ∀ s, P s → s.In f ∧ s.afterHeadWord = true) :
    Opens P .leftParen .rightParen f (· = .head) := by
  intro s hs
  obtain ⟨h, hhead⟩ := hP s hs
  refine ⟨.head, rfl, rfl, ?_⟩
  simp only [after, readPunctuator, hhead, h.due, if_true]
  exact ⟨congrArg _ h.scopes, h.announced, h.dos, rfl, h.label⟩

theorem opens_announce {scope : Scope} (hscope : scope.closer = .rightBrace) :
    Opens (·.In (f.announce scope)) .leftBrace .rightBrace f (· = scope) := by
  refine fun s h => ⟨scope, rfl, hscope, ?_⟩
  have hbrace : s.braceScope = (scope, f.announced) := by
    unfold braceScope
    rw [h.announced, h.scopes]
    exact if_pos rfl
  show ({ s with scopes := s.braceScope.1 :: s.scopes, announced := s.braceScope.2 }.remember _ _).In _
  rw [hbrace]
  exact ⟨congrArg _ h.scopes, rfl, h.dos, h.due, h.label⟩

theorem closer_unannouncedScope (s : Terminators) : s.unannouncedScope.closer = .rightBrace := by
  unfold unannouncedScope
  split
  · rfl
  · split <;> rfl

theorem opens_unannouncedScope {P : Terminators → Prop} {C : Scope → Prop} (hf : f.Unannounced)
    (hP : ∀ s, P s → s.In f ∧ C s.unannouncedScope) :
    Opens P .leftBrace .rightBrace f C := by
  intro s hs
  obtain ⟨h, hscope⟩ := hP s hs
  refine ⟨s.unannouncedScope, hscope, closer_unannouncedScope s, ?_⟩
  have hbrace : s.braceScope = (s.unannouncedScope, f.announced) := by
    unfold braceScope
    rw [h.announced]
    split
    · rename_i depth scope rest hannounced
      have hdepth := hf.strict (depth, scope) (by rw [hannounced]; exact List.mem_cons_self)
      rw [if_neg (by rw [h.scopes]; exact Nat.ne_of_lt hdepth)]
    · rfl
  show ({ s with scopes := s.braceScope.1 :: s.scopes, announced := s.braceScope.2 }.remember _ _).In _
  rw [hbrace]
  exact ⟨congrArg _ h.scopes, rfl, h.dos, h.due, h.label⟩

theorem opens_of_unannounced (hf : f.Unannounced) :
    Opens (·.In f) .leftBrace .rightBrace f fun _ => True :=
  opens_unannouncedScope hf fun _ h => ⟨h, trivial⟩

theorem unannouncedScope_rightParen (h : s.previous = some (punctuator .rightParen)) :
    s.unannouncedScope = .block := by simp [unannouncedScope, h]

theorem unannouncedScope_word {w : Word} (h : s.previous = some (word w))
    (hw : [Word.kwElse, .kwTry, .kwCatch, .kwFinally, .kwDo].contains w = true) :
    s.unannouncedScope = .block := by
  simp only [unannouncedScope, afterBlockOpener, h, hw]
  rfl

/-- Behind parentheses a brace opens a block. -/
theorem opens_behind_rightParen (hf : f.Unannounced) :
    Opens (·.Behind f (punctuator .rightParen)) .leftBrace .rightBrace f (· = .block) :=
  opens_unannouncedScope hf fun _ h => ⟨h.toIn, unannouncedScope_rightParen h.previous⟩

/-- Behind some words a brace opens a block. -/
theorem opens_behind_word (hf : f.Unannounced) {w : Word}
    (hw : [Word.kwElse, .kwTry, .kwCatch, .kwFinally, .kwDo].contains w = true) :
    Opens (·.Behind f (word w)) .leftBrace .rightBrace f (· = .block) :=
  opens_unannouncedScope hf fun _ h => ⟨h.toIn, unannouncedScope_word h.previous hw⟩

/-! ## Where statements start -/

/-- Behind the head of a statement another one starts. -/
theorem Past.starting (h : s.Past f .rightParen (· = .head)) : s.Starting f := by
  obtain ⟨_, hscope, rfl⟩ := h.closed
  refine ⟨h.toBehind.calm nofun nofun, ?_, unannouncedScope_rightParen h.previous⟩
  simp [mayEnd, h.previous, hscope]

/-- Where no `do` waits, the next statement starts behind one that is finished. -/
theorem Finished.starting (h : s.Finished f) (hquiet : f.Quiet) : s.Starting f := by
  refine ⟨h.toIn.calm hquiet, h.finished, ?_⟩
  have hend := h.finished
  rcases h.previous with hprevious | hprevious
  · simp [unannouncedScope, afterBlockOpener, hprevious]
  · simp only [mayEnd, hprevious] at hend
    simp [unannouncedScope, afterBlock, hprevious, hend]

theorem starting_after_else (h : s.In f) : (s.after (word .kwElse)).Starting f :=
  have hbehind := behind_after (t := word .kwElse) h rfl
  ⟨hbehind.calm nofun nofun, rfl, unannouncedScope_word hbehind.previous rfl⟩

theorem starting_outermost : ({} : Terminators).Starting Frame.outermost :=
  ⟨In.calm ⟨rfl, rfl, rfl, rfl, nofun⟩ Frame.quiet_outermost, rfl, rfl⟩

theorem Starting.opens_block (hf : f.Unannounced) :
    Opens (·.Starting f) .leftBrace .rightBrace f (· = .block) :=
  opens_unannouncedScope hf fun _ h => ⟨h.toIn, h.block⟩

/-! ## Words -/

theorem mid_announce (h : s.In f) (w : Word) (scope : Scope) :
    (s.announce w scope).Mid (f.announce scope) := by
  refine ⟨⟨h.scopes, ?_, h.dos, h.due, h.label⟩, nofun⟩
  show (_ :: _ : List _) = _ :: _
  rw [h.announced, h.scopes]

theorem behind_after_label (h : s.In f) {w : Word} (hw : w = .kwCase ∨ w = .kwDefault) :
    (s.after (word w)).Behind (f.labelled true) (word w) := by
  rcases hw with rfl | rfl
  · exact ⟨⟨h.scopes, h.announced, h.dos, h.due, fun _ => rfl⟩, rfl⟩
  · exact ⟨⟨h.scopes, h.announced, h.dos, h.due, fun _ => rfl⟩, rfl⟩

/-- `default` starts no label where no statements are, and not after `export`. -/
theorem behind_after_default (h : s.In f)
    (hs : s.inStatements = false ∨ s.previous = some (word .kwExport)) :
    (s.after (word .kwDefault)).Behind f (word .kwDefault) := by
  refine ⟨⟨h.scopes, h.announced, h.dos, h.due, fun hlabel => h.label ?_⟩, rfl⟩
  rcases hs with hs | hs <;> simpa [after, readWord, remember, hs] using hlabel

theorem behind_after_colon (h : s.In f) (label : Bool) :
    (s.after (punctuator .colon)).Behind (f.labelled label) (punctuator .colon) := by
  by_cases hlabel : s.labelOpen = true
  · simp only [after, readPunctuator, if_pos hlabel]
    exact ⟨⟨h.scopes, h.announced, h.dos, h.due, nofun⟩, rfl⟩
  · simp only [after, readPunctuator, if_neg hlabel]
    exact ⟨⟨h.scopes, h.announced, h.dos, h.due, fun hopen => absurd hopen hlabel⟩, rfl⟩

theorem in_after_semicolon (h : s.In f) : (s.after (punctuator .semicolon)).In f := by
  by_cases hs : s.inStatements = true
  · simp only [after, readPunctuator, if_pos hs]
    exact (behind_remember h _ _).toIn
  · simp only [after, readPunctuator, if_neg hs]
    exact (behind_remember h _ _).toIn

theorem behind_after_do (h : s.In f) : (s.after (word .kwDo)).Behind f.await (word .kwDo) := by
  refine ⟨⟨h.scopes, h.announced, ?_, h.due, h.label⟩, rfl⟩
  show (_ :: _ : List _) = _ :: _
  rw [h.scopes, h.dos]

theorem behind_after_while (h : s.Calm f) : (s.after (word .kwWhile)).Behind f (word .kwWhile) := by
  have hcloses : (s.dos.head? = some s.scopes.length &&
      (s.previous = some (punctuator .rightBrace) || s.previous = some .terminator)) = false := by
    rw [h.dos, h.scopes]
    rcases h.calm with hquiet | ⟨hterminator, hbrace⟩
    · simp [show f.dos.head? ≠ some f.scopes.length from hquiet]
    · simp [hterminator, hbrace]
  simp only [after, readWord, hcloses]
  exact behind_remember h.toIn _ _

theorem due_after_while (h : s.Done f.await) : (s.after (word .kwWhile)).Due f := by
  have hcloses : (s.dos.head? = some s.scopes.length &&
      (s.previous = some (punctuator .rightBrace) || s.previous = some .terminator)) = true := by
    rw [h.dos, h.scopes]
    rcases h.previous with hprevious | hprevious <;> simp [Frame.await, hprevious]
  simp only [after, readWord, hcloses]
  refine ⟨⟨h.scopes, h.announced, ?_, rfl, h.label⟩⟩
  show s.dos.tail = _
  rw [h.dos]
  rfl

end Terminators

end ModuleLowering
