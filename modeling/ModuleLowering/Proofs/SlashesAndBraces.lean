import Mathlib.Data.List.Induction
import ModuleLowering.Proofs.Explicit

/-!
# Slashes and braces

A slash divides or starts a regular expression, and a brace opens a block or an object. The scanner
decides the one by the lexeme before the slash, the insertion of terminators the other by the tokens
before the brace. Two questions are answered here for every stream of tokens. Is a word before a
regular expression read as that word? It is, except as the name of a property or of a class member.
And does a brace behind a colon open a block? It does if a `case` or `default` comes before with no
other colon in between, or if a function or a class has announced its body there.
-/

set_option autoImplicit false

namespace ModuleLowering

namespace Terminators

open Terminal (word punctuator)

variable {s : Terminators} {l r : Lexeme} {last : Option Lexeme} {before rest : List Lexeme}
  {ts us vs : List Token} {t : Token} {w : Word}

/-! ## The state behind tokens -/

def afterAll (s : Terminators) (ts : List Token) : Terminators :=
  ts.foldl (fun s t => s.after t.terminal) s

theorem afterAll_append (s : Terminators) (ts us : List Token) :
    s.afterAll (ts ++ us) = (s.afterAll ts).afterAll us := List.foldl_append

theorem afterAll_inserted (s : Terminators) (l : Lexeme) :
    s.afterAll (if s.needsTerminator l then [insertedBefore l] else []) =
      if s.needsTerminator l then s.remember .terminator none else s := by
  split <;> rfl

/-- Every lexeme is read in the state behind the tokens before its own. -/
theorem tokens_append_eq_ok (hs : s.AnnouncesBodies)
    (h : s.tokens last (before ++ l :: rest) = ⟨ts, none⟩) :
    ∃ us t vs, ts = us ++ tokenOf t l :: vs ∧ (s.afterAll us).AnnouncesBodies ∧
      (s.afterAll us).read l rest.head? = .ok (t, (s.afterAll us).after t) ∧
      ((s.afterAll us).after t).tokens (some l) rest = ⟨vs, none⟩ := by
  induction before generalizing s last ts with
  | nil =>
    obtain ⟨t, next, vs, hread, hvs, rfl⟩ := tokens_cons_eq_ok.1 h
    rw [← afterAll_inserted] at hread
    have hbodies : (s.afterAll
        (if s.needsTerminator l then [insertedBefore l] else [])).AnnouncesBodies := by
      split <;> exact hs
    obtain ⟨rfl, -⟩ := read_after hbodies hread
    exact ⟨_, t, vs, rfl, hbodies, hread, hvs⟩
  | cons m before ih =>
    obtain ⟨t, next, us, hread, hus, rfl⟩ := tokens_cons_eq_ok.1 h
    have hbodies : (if s.needsTerminator m then s.remember .terminator none
        else s).AnnouncesBodies := by
      split <;> exact hs
    obtain ⟨rfl, hnext⟩ := read_after hbodies hread
    obtain ⟨us', t', vs, rfl, hrest⟩ := ih hnext hus
    refine ⟨(if s.needsTerminator m then [insertedBefore m] else []) ++ tokenOf t m :: us', t', vs,
      by rw [List.append_assoc, List.cons_append], ?_⟩
    rw [afterAll_append, afterAll_inserted]
    exact hrest

/-! ## Words before a regular expression -/

/-- Whether a word that the regular expression `r` follows is only a name: behind a dot, and where
a class member may begin, if `r` stands on a new line. -/
def namesBefore (s : Terminators) (r : Lexeme) : Bool :=
  s.previous = some (punctuator .dot) || s.previous = some (punctuator .optionalChain) ||
    ((s.scopes.head? = some .classBody || s.scopes.head? = some .classExpressionBody) &&
      s.afterMemberOpener && r.lineBreakBefore)

theorem wordOf_before_regex {text : Text} (hw : Word.ofText? text = some w) (hr : r.kind = .regex) :
    s.wordOf text (some r) = if s.namesBefore r then none else some w := by
  -- No property name is read here: one needs a punctuator behind it.
  have hfollow : r.punctuator? = none := by
    rw [Lexeme.punctuator?, hr]
  simp only [wordOf, hw, Option.bind_eq_bind, Option.bind_some, hfollow, Option.map_some,
    Option.getD_some, namesBefore]
  split <;> simp_all

/-- None of the words that a regular expression may follow starts a declaration. -/
theorem readWord_precedesRegex (s : Terminators) (hw : w.precedesRegex = true) :
    (s.readWord w).1 = word w := by
  cases w with
  | kwFunction | kwClass => cases hw
  | _ => rfl

theorem read_before_regex {u : Terminal} {next : Terminators} (hl : l.kind = .name)
    (hr : r.kind = .regex) (hw : Word.ofText? l.text = some w) (hprecedes : w.precedesRegex = true)
    (h : s.read l (some r) = .ok (u, next)) : u = if s.namesBefore r then .name else word w := by
  simp only [read, hl, wordOf_before_regex hw hr] at h
  by_cases hnames : s.namesBefore r = true
  · rw [if_pos hnames] at h ⊢
    cases h
    rfl
  · rw [if_neg hnames] at h ⊢
    have hread : (s.readWord w).1 = u := congrArg Prod.fst (Except.ok.inj h)
    exact hread.symm.trans (readWord_precedesRegex s hprecedes)

end Terminators

namespace Scanner

/-- A regular expression is read only where a slash starts one. -/
theorem cut_kind_regex {regex : Bool} {c : CodePoint} {rest : Text} {found : Cut}
    (h : cut regex c rest = .ok found) (hfound : found.kind = .regex) : regex = true := by
  by_contra hregex
  obtain rfl : regex = false := Bool.eq_false_iff.2 hregex
  unfold cut at h
  simp only [Bool.and_false, Bool.false_eq_true, if_false] at h
  split at h
  · split at h <;> cases h
    cases hfound
  split at h
  · cases hn : closeFrames .template [] 1 rest <;> rw [hn] at h <;> cases h
    cases hfound
  split at h
  · split at h <;> cases h
    cases hfound
  split at h
  · cases h
    cases hfound
  split at h <;> cases h
  cases hfound

/-- The lexeme before a regular expression is one that a regular expression may follow. -/
theorem Scans.precedesRegex {offset : Nat} {position : Position} {regex : Bool} {t : Text}
    {l r : Lexeme} {before rest : List Lexeme}
    (h : Scans offset position regex t (before ++ l :: r :: rest)) (hr : r.kind = .regex) :
    l.precedesRegex = true := by
  induction before generalizing offset position regex t with
  | nil =>
    cases h with
    | cons _ _ _ h =>
      cases h with
      | cons hstarts _ _ _ =>
        obtain ⟨c, u, -, hcut⟩ := hstarts.exists_cons
        exact cut_kind_regex hcut hr
  | cons m before ih =>
    cases h with
    | cons _ _ _ h => exact ih h

end Scanner

/-- A word before a regular expression is one of those that a regular expression follows. Its token
is that word, except behind a dot, and where a class member may begin, if the regular expression
stands on a new line. -/
theorem TokenStream.word_before_regex {source : Text} {l r : Lexeme} {before rest : List Lexeme}
    {ts : List Token} (hscan : Lexeme.scan source = .ok (before ++ l :: r :: rest))
    (hts : ofLexemes (before ++ l :: r :: rest) = ⟨ts, none⟩) (hl : l.kind = .name)
    (hr : r.kind = .regex) :
    ∃ w us vs, Word.ofText? l.text = some w ∧ w.precedesRegex = true ∧
      ts = us ++ Terminators.tokenOf
        (if (({} : Terminators).afterAll us).namesBefore r then .name else .word w) l :: vs := by
  have hprecedes : l.precedesRegex = true := (Scanner.scan_iff.1 hscan).precedesRegex hr
  simp only [Lexeme.precedesRegex, hl] at hprecedes
  split at hprecedes
  case h_2 => cases hprecedes
  rename_i w hw
  obtain ⟨us, t, vs, rfl, -, hread, -⟩ := Terminators.tokens_append_eq_ok (s := {}) nofun hts
  obtain rfl := Terminators.read_before_regex hl hr hw hprecedes hread
  exact ⟨w, us, vs, hw, hprecedes, rfl⟩

namespace Terminators

open Terminal (word punctuator)

variable {s : Terminators} {l : Lexeme} {ts us vs : List Token} {t : Token}

/-! ## The colons of labels -/

/-- Whether the colon of a label is due behind a token. -/
def opensLabel (s : Terminators) (t : Terminal) : Bool :=
  (t = word .kwCase || t = word .kwDefault) && s.inStatements &&
    s.previous ≠ some (word .kwExport)

/-- A colon is taken for that of a label if one is due. -/
theorem after_colon (s : Terminators) : s.after (punctuator .colon) =
    { { s with labelOpen := false }.remember (punctuator .colon) none with
      afterLabel := s.labelOpen } := by
  cases hlabel : s.labelOpen <;> simp [after, readPunctuator, remember, hlabel]

theorem readPunctuator_labelOpen {next : Terminators} {p : Punctuator} {u : Terminal}
    (hp : p ≠ .colon) (h : s.readPunctuator p = .ok (u, next)) : next.labelOpen = s.labelOpen := by
  have hclose (h : s.closeScope p = .ok (u, next)) : next.labelOpen = s.labelOpen := by
    unfold closeScope at h
    split at h
    · cases h
    · split at h <;> cases h
      rfl
  cases p with
  | colon => exact absurd rfl hp
  | semicolon =>
    simp only [readPunctuator] at h
    split at h <;> cases h <;> rfl
  | rightBrace | rightParen | rightBracket => exact hclose h
  | _ =>
    cases h
    rfl

/-- `case` and `default` make the colon of a label due, and no colon is due behind a colon. -/
theorem labelOpen_after (s : Terminators) (t : Terminal) :
    (s.after t).labelOpen = (t ≠ punctuator .colon && (s.labelOpen || s.opensLabel t)) := by
  cases t with
  | word w =>
    cases w with
    | kwCase | kwDefault => simp [after, readWord, remember, opensLabel]
    | kwWhile =>
      simp only [after, readWord, remember, opensLabel]
      split <;> simp
    | _ => simp [after, readWord, remember, opensLabel, announce]
  | punctuator p =>
    by_cases hp : p = .colon
    · rw [hp, after_colon]
      rfl
    · simp only [after]
      split
      · simp [readPunctuator_labelOpen hp ‹_›, hp, opensLabel]
      · simp [hp, opensLabel]
  | _ => simp [after, remember, opensLabel, announce]

/-- There is a `case` or `default` of a label among the tokens with no colon behind it. -/
def LabelDue (s : Terminators) (ts : List Token) : Prop :=
  ∃ us t vs, ts = us ++ t :: vs ∧ (s.afterAll us).opensLabel t.terminal = true ∧
    ∀ v ∈ vs, v.terminal ≠ punctuator .colon

theorem labelDue_append_singleton :
    s.LabelDue (ts ++ [t]) ↔ t.terminal ≠ punctuator .colon ∧
      (s.LabelDue ts ∨ (s.afterAll ts).opensLabel t.terminal = true) := by
  constructor
  · rintro ⟨us, u, vs, heq, hopens, hvs⟩
    rcases List.eq_nil_or_concat vs with rfl | ⟨vs, v, rfl⟩
    · -- The last token itself makes the colon due.
      obtain ⟨rfl, h⟩ := List.append_inj' heq rfl
      obtain rfl := List.singleton_inj.1 h
      refine ⟨fun hcolon => ?_, .inr hopens⟩
      simp [opensLabel, hcolon] at hopens
    · -- The colon was due before, and the last token is none.
      rw [List.concat_eq_append] at heq hvs
      rw [← List.cons_append, ← List.append_assoc] at heq
      obtain ⟨rfl, h⟩ := List.append_inj' heq rfl
      obtain rfl := List.singleton_inj.1 h
      exact ⟨hvs t (by simp), .inl ⟨us, u, vs, rfl, hopens, fun v hv => hvs v (by simp [hv])⟩⟩
  · rintro ⟨hcolon, ⟨us, u, vs, rfl, hopens, hvs⟩ | hopens⟩
    · refine ⟨us, u, vs ++ [t], by simp, hopens, fun v hv => ?_⟩
      rcases List.mem_append.1 hv with hv | hv
      · exact hvs v hv
      · rwa [List.mem_singleton.1 hv]
    · exact ⟨ts, t, [], rfl, hopens, nofun⟩

/-- The colon of a label is due exactly behind a `case` or `default` that no colon has followed. -/
theorem labelOpen_afterAll (hs : s.labelOpen = false) (ts : List Token) :
    (s.afterAll ts).labelOpen = true ↔ s.LabelDue ts := by
  induction ts using List.reverseRecOn with
  | nil => simp [afterAll, hs, LabelDue]
  | append_singleton ts t ih =>
    have hstep : s.afterAll (ts ++ [t]) = (s.afterAll ts).after t.terminal :=
      afterAll_append s ts [t]
    rw [hstep, labelOpen_after, labelDue_append_singleton, ← ih]
    simp

/-! ## Braces behind colons -/

/-- Whether a function or a class has announced its body for the next brace. -/
def bodyDue (s : Terminators) : Bool := s.announced.head?.any fun a => a.1 = s.scopes.length

/-- A brace directly behind a colon opens no object where a body or the colon of a label was due. -/
theorem braceScope_after_colon (hs : s.AnnouncesBodies) :
    (s.after (punctuator .colon)).braceScope.1 ≠ .object ↔
      s.bodyDue = true ∨ s.labelOpen = true := by
  have hunannounced : (s.after (punctuator .colon)).unannouncedScope =
      if s.labelOpen then .block else .object := by
    simp [after_colon, remember, unannouncedScope, afterBlockOpener, afterBlock]
  have hannounced : (s.after (punctuator .colon)).announced = s.announced := by
    rw [after_colon]
    rfl
  have hscopes : (s.after (punctuator .colon)).scopes = s.scopes := by
    rw [after_colon]
    rfl
  simp only [braceScope, hunannounced, hannounced, hscopes, bodyDue]
  cases hlist : s.announced with
  | nil => cases s.labelOpen <;> simp
  | cons a more =>
    obtain ⟨depth, scope⟩ := a
    have hscope : scope ≠ .object := hs (depth, scope) (by rw [hlist]; exact List.mem_cons_self)
    by_cases hdepth : depth = s.scopes.length
    · simp [hdepth, hscope]
    · cases s.labelOpen <;> simp [hdepth]

theorem terminal_of_colon {follow : Option Lexeme} {u : Terminal} {next : Terminators}
    (hl : l.kind = .punctuator .colon) (h : s.read l follow = .ok (u, next)) :
    u = punctuator .colon := by
  simp only [read, hl, readPunctuator] at h
  split at h <;> cases h <;> rfl

theorem terminal_of_leftBrace {follow : Option Lexeme} {u : Terminal} {next : Terminators}
    (hl : l.kind = .punctuator .leftBrace) (h : s.read l follow = .ok (u, next)) :
    u = if s.braceScope.1 = .object then .objectBrace else punctuator .leftBrace := by
  simp only [read, hl, readPunctuator] at h
  cases h
  rfl

/-- No terminator goes between a colon and a brace. -/
theorem needsTerminator_after_colon (hl : l.kind = .punctuator .leftBrace) :
    (s.after (punctuator .colon)).needsTerminator l = false := by
  simp [after_colon, needsTerminator, remember, mayEnd, endsStatement, hl]

end Terminators

/-- A brace directly behind a colon opens a block if a function or a class has announced its body
there, or if a `case` or `default` stands before the colon with no other colon in between. Else it
opens an object. -/
theorem TokenStream.brace_behind_colon {c b : Lexeme} {before rest : List Lexeme} {ts : List Token}
    (hts : ofLexemes (before ++ c :: b :: rest) = ⟨ts, none⟩)
    (hc : c.kind = .punctuator .colon) (hb : b.kind = .punctuator .leftBrace) :
    ∃ us t vs,
      ts = us ++ Terminators.tokenOf (.punctuator .colon) c :: Terminators.tokenOf t b :: vs ∧
        (t = .punctuator .leftBrace ∨ t = .objectBrace) ∧
        (t = .punctuator .leftBrace ↔ (({} : Terminators).afterAll us).bodyDue = true ∨
          ({} : Terminators).LabelDue us) := by
  obtain ⟨us, t, vs, rfl, hbodies, hread, hrest⟩ :=
    Terminators.tokens_append_eq_ok (s := {}) nofun hts
  obtain rfl := Terminators.terminal_of_colon hc hread
  obtain ⟨t, next, vs, hbrace, -, rfl⟩ := Terminators.tokens_cons_eq_ok.1 hrest
  have hnone := Terminators.needsTerminator_after_colon (s := ({} : Terminators).afterAll us) hb
  simp only [hnone, Bool.false_eq_true, if_false, List.nil_append] at hbrace ⊢
  obtain rfl := Terminators.terminal_of_leftBrace hb hbrace
  refine ⟨us, _, vs, rfl, ?_⟩
  have hlabel := Terminators.labelOpen_afterAll (s := {}) rfl us
  have hobject := Terminators.braceScope_after_colon hbodies
  rw [← hlabel]
  split
  case isTrue h => exact ⟨.inr rfl, nofun, fun hdue => absurd h (hobject.2 hdue)⟩
  case isFalse h => exact ⟨.inl rfl, fun _ => hobject.1 h, fun _ => rfl⟩

end ModuleLowering
