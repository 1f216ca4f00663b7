import Mathlib.Data.List.Forall2
import ModuleLowering.Proofs.Explicit
import ModuleLowering.Proofs.Printing

/-!
# Pieces of a printed text

A printed text is a row of pieces with white space between them: names, words of the grammar,
parentheses, braces and semicolons. The scanner cuts such a text into these pieces again. Two
pieces run together only where a name stands directly before more of a name, and texts whose seams
avoid that can be joined.
-/

set_option autoImplicit false

namespace ModuleLowering

/-- Whether the scanner would read the whole of a text as one name. -/
def Text.isName (t : Text) : Bool :=
  match t with
  | [] => false
  | c :: rest => Scanner.isNameStart c && !c.isDigit && rest.all Scanner.isNamePart

/-- The spelling of a word stands for that word alone. -/
theorem Word.ofText_text (w : Word) : Word.ofText? w.text = some w := by
  cases w <;> decide

/-- A piece of a printed text. -/
inductive Piece where
  /-- A name that is no word of the grammar. -/
  | name (x : Text)
  | word (w : Word)
  | punctuator (p : Punctuator)
  /-- The semicolon behind a statement; a tight one stands directly behind it. -/
  | terminator (tight : Bool)

namespace Piece

/-- What the grammar reads a piece as. -/
def terminal : Piece → Terminal
  | name _ => .name
  | word w => .word w
  | punctuator p => .punctuator p
  | terminator _ => .terminator

def text : Piece → Text
  | name x => x
  | word w => w.text
  | punctuator p => p.text
  | terminator _ => ";"

def kind : Piece → LexemeKind
  | name _ | word _ => .name
  | punctuator p => .punctuator p
  | terminator _ => .punctuator .semicolon

def tight : Piece → Bool
  | terminator tight => tight
  | _ => false

end Piece

/-- A lexeme is a piece. -/
structure Piece.Spells (p : Piece) (l : Lexeme) : Prop where
  kind : l.kind = p.kind
  text : l.text = p.text
  tight : p.tight = true → l.lineBreakBefore = false

namespace Scanner

/-- Blanks and line feeds, or nothing. -/
def Spaces (g : Text) : Prop := ∀ c ∈ g, c = ' ' ∨ c = '\n'

/-- What a name may stand directly before: nothing that goes on with it, and no `!`, which would
make a comment of a `#` at the start. -/
def Apart (t : Text) : Prop := ∀ c ∈ t.head?, isNamePart c = false ∧ c ≠ '!'

/-- Punctuators that no other one starts with. -/
def isSingle (p : Punctuator) : Bool :=
  [Punctuator.leftParen, .rightParen, .leftBrace, .rightBrace, .semicolon].contains p

theorem spaces_append {g h : Text} (hg : Spaces g) (hh : Spaces h) : Spaces (g ++ h) := by
  intro c hc
  rcases List.mem_append.1 hc with hc | hc
  · exact hg c hc
  · exact hh c hc

instance (g : Text) : Decidable (Spaces g) :=
  inferInstanceAs (Decidable (∀ c ∈ g, c = ' ' ∨ c = '\n'))

instance (t : Text) : Decidable (Apart t) :=
  inferInstanceAs (Decidable (∀ c ∈ t.head?, isNamePart c = false ∧ c ≠ '!'))

theorem apart_append {t u : Text} (ht : Apart t) (hu : Apart u) : Apart (t ++ u) := by
  cases t with
  | nil => exact hu
  | cons c t => exact ht

theorem apart_append_left {t : Text} (ht : Apart t) (hne : t ≠ []) (u : Text) : Apart (t ++ u) := by
  cases t with
  | nil => exact absurd rfl hne
  | cons c t => exact ht

theorem apart_of_spaces {g t : Text} (hg : Spaces g) (ht : Apart t) : Apart (g ++ t) := by
  apply apart_append _ ht
  intro c hc
  rcases hg c (List.mem_of_mem_head? hc) with rfl | rfl
  · decide
  · decide

theorem isSpace_of_spaces {g : Text} (hg : Spaces g) {c : CodePoint} (hc : c ∈ g) :
    isSpace c = true := by
  rcases hg c hc with rfl | rfl
  · rfl
  · rfl

/-- White space and the back quote start no name. -/
theorem isNameStart_eq_false {c : CodePoint}
    (hc : c.val ∈ [0x20, 0x09, 0x0A, 0x0D, 0x0B, 0x0C, 0xA0, 0xFEFF, 0x2028, 0x2029, 0x60]) :
    isNameStart c = false := by
  have hall : ∀ n ∈ [0x20, 0x09, 0x0A, 0x0D, 0x0B, 0x0C, 0xA0, 0xFEFF, 0x2028, 0x2029, 0x60],
      isNameStart (CodePoint.ofSmall n) = false := by decide +kernel
  have hsame : CodePoint.ofSmall c.val = c := by
    obtain ⟨n, hn⟩ := c
    simp [CodePoint.ofSmall, Nat.mod_eq_of_lt hn]
  rw [← hsame]
  exact hall c.val hc

theorem isSpace_of_isNameStart {c : CodePoint} (h : isNameStart c = true) : isSpace c = false := by
  by_contra hspace
  rw [Bool.not_eq_false] at hspace
  rw [isNameStart_eq_false] at h
  · cases h
  · obtain ⟨n, hn⟩ := c
    simp only [isSpace, CodePoint.ofChar, Bool.or_eq_true, decide_eq_true_eq, CodePoint.mk.injEq]
      at hspace
    rcases hspace with ((((((((rfl | rfl) | rfl) | rfl) | rfl) | rfl) | rfl) | rfl) | rfl) | rfl
    all_goals simp

/-! ## One piece -/

section

variable {atStart regex : Bool} {rest : Text}

/-- Where nothing of a gap starts, a lexeme does. -/
theorem starts_of_cut {c : CodePoint} {u : Text} {kind : LexemeKind}
    (hnone : ∀ atStart, gapPiece? atStart (c :: (u ++ rest)) = .ok none)
    (hcut : cut regex c (u ++ rest) = .ok ⟨kind, u.length + 1⟩) :
    Starts atStart regex [] false kind (c :: u) rest where
  space {n} hn := by
    obtain ⟨n, rfl⟩ := Nat.exists_eq_add_of_le' (Nat.lt_of_le_of_lt (Nat.zero_le _) hn)
    apply gap_succ_ok.2
    exact .inl ⟨hnone atStart, rfl⟩
  lexeme := firstCut_of_cut hcut

theorem takeWhile_isNamePart {u : Text} (hu : u.all isNamePart = true) (hrest : Apart rest) :
    (u ++ rest).takeWhile isNamePart = u := by
  rw [List.takeWhile_append_of_pos (List.all_eq_true.1 hu)]
  have hnone : rest.takeWhile isNamePart = [] := by
    cases rest with
    | nil => rfl
    | cons c rest =>
      have hc := (hrest c rfl).1
      exact List.takeWhile_cons_of_neg (by simp [hc])
  rw [hnone, List.append_nil]

theorem gapPiece_name {c : CodePoint} {u : Text} (hc : isNameStart c = true)
    (hu : u.all isNamePart = true) (hrest : Apart rest) :
    gapPiece? atStart (c :: (u ++ rest)) = .ok none := by
  have hslash : c ≠ '/' := by
    rintro rfl
    cases hc
  have hspace : (c :: (u ++ rest)).takeWhile isSpace = [] :=
    List.takeWhile_cons_of_neg (by simp [isSpace_of_isNameStart hc])
  apply gapPiece_eq_none.2
  refine ⟨hspace, ?_, ?_, ?_⟩
  · -- Only a name that is a `#` alone could be taken for the start of a comment.
    rw [Bool.and_eq_false_iff]
    right
    rw [Bool.eq_false_iff]
    intro hhash
    obtain ⟨v, hv⟩ := (startsWith_pair (p := '#') (q := '!')).1 hhash
    cases u with
    | nil =>
      obtain ⟨-, hbang⟩ := List.cons_eq_cons.1 hv
      exact (hrest '!' (by rw [← List.nil_append rest, hbang]; rfl)).2 rfl
    | cons d u =>
      obtain ⟨-, hbang⟩ := List.cons_eq_cons.1 hv
      obtain ⟨rfl, -⟩ := List.cons_eq_cons.1 hbang
      rw [List.all_cons, Bool.and_eq_true] at hu
      exact absurd hu.1 (by decide)
  · rw [Bool.eq_false_iff]
    intro hline
    obtain ⟨v, hv⟩ := startsWith_pair.1 hline
    exact hslash (List.cons_eq_cons.1 hv).1
  · rw [Bool.eq_false_iff]
    intro hblock
    obtain ⟨v, hv⟩ := startsWith_pair.1 hblock
    exact hslash (List.cons_eq_cons.1 hv).1

theorem starts_name {x : Text} (hx : x.isName = true) (hrest : Apart rest) :
    Starts atStart regex [] false .name x rest := by
  cases x with
  | nil => cases hx
  | cons c u =>
    simp only [Text.isName, Bool.and_eq_true, Bool.not_eq_true'] at hx
    obtain ⟨⟨hstart, hdigit⟩, hu⟩ := hx
    apply starts_of_cut
    · intro atStart
      exact gapPiece_name hstart hu hrest
    have hquote : (c = '\'' || c = '"') = false := by
      rw [Bool.eq_false_iff]
      intro hquote
      simp only [Bool.or_eq_true, decide_eq_true_eq] at hquote
      rcases hquote with rfl | rfl
      · cases hstart
      · cases hstart
    have hback : ¬c.val = 0x60 := by
      intro hback
      rw [isNameStart_eq_false (by rw [hback]; decide)] at hstart
      cases hstart
    have hslash : (c = '/' && regex) = false := by
      rw [Bool.and_eq_false_iff, decide_eq_false_iff_not]
      left
      rintro rfl
      cases hstart
    have hpoint : c ≠ '.' := by
      rintro rfl
      cases hstart
    have hnumeral : startsNumeral (c :: (u ++ rest)) = false := by
      simp [startsNumeral, hdigit, hpoint]
    simp only [cut, hquote, hback, hslash, hnumeral, hstart, Bool.false_eq_true, if_false, if_true,
      takeWhile_isNamePart hu hrest, Nat.add_comm 1]

theorem starts_single {p : Punctuator} (hp : isSingle p = true) :
    Starts atStart regex [] false (.punctuator p) p.text rest := by
  obtain ⟨c, hc, hplain, hone⟩ : ∃ c, p.text = [c] ∧
      (isSpace c = false ∧ c ≠ '#' ∧ c ≠ '/' ∧ c ≠ '\'' ∧ c ≠ '"' ∧ c.val ≠ 0x60 ∧
        c.isDigit = false ∧ c ≠ '.' ∧ isNameStart c = false) ∧
      ∀ q : Punctuator, q.text.head? = some c → q = p := by
    cases p
    case leftParen | rightParen | leftBrace | rightBrace | semicolon =>
      all_goals
        refine ⟨_, rfl, by decide, ?_⟩
        intro q hq
        revert hq
        cases q <;> decide
    all_goals cases hp
  obtain ⟨hspace, hhash, hslash, hquote, hquotes, hback, hdigit, hpoint, hname⟩ := hplain
  rw [hc]
  apply starts_of_cut
  · intro atStart
    have hpair : ∀ d q : CodePoint, c ≠ d → Text.startsWith (c :: ([] ++ rest)) [d, q] = false := by
      intro d q hne
      rw [Bool.eq_false_iff]
      intro hpair
      obtain ⟨v, hv⟩ := startsWith_pair.1 hpair
      exact hne (List.cons_eq_cons.1 hv).1
    apply gapPiece_eq_none.2
    refine ⟨List.takeWhile_cons_of_neg (by simp [hspace]), ?_, hpair _ _ hslash, hpair _ _ hslash⟩
    rw [Bool.and_eq_false_iff]
    exact .inr (hpair _ _ hhash)
  · have hnumeral : startsNumeral (c :: ([] ++ rest)) = false := by
      simp [startsNumeral, hdigit, hpoint]
    have hlong : Punctuator.longest? (c :: ([] ++ rest)) = some p := by
      apply longest_of_unique
      · exact ⟨rest, by rw [hc]; rfl⟩
      · intro q hq
        have hstart := head_of_prefix hq
        exact hone q hstart
    have hfound : punctuator? (c :: ([] ++ rest)) = some p := by
      apply punctuator_eq_self hlong
      rintro rfl
      cases hp
    simp only [cut, hquote, hquotes, hback, hslash, hnumeral, hname, hfound, hc, decide_false,
      Bool.or_false, Bool.false_and, Bool.false_eq_true, if_false]
    rfl

/-- Blanks and line feeds are a gap where nothing else of a gap follows. -/
theorem gap_of_spaces {g t : Text} {n : Nat} (hg : Spaces g)
    (ht : ∀ {atStart n}, t.length < n → gap atStart n t = .ok ⟨0, false⟩)
    (hn : (g ++ t).length < n) : gap atStart n (g ++ t) = .ok ⟨g.length, g.any isLineBreak⟩ := by
  by_cases hne : g = []
  · subst hne
    exact ht hn
  · have hnone : gap false (t.length + 1) t = .ok ⟨0, false⟩ := ht (Nat.lt_succ_self _)
    rw [gap_spaces (fun c hc => isSpace_of_spaces hg hc) hnone (Nat.lt_succ_self _) hn hne]
    simp [Gap.after]

/-- White space may stand in front of a lexeme. -/
theorem Starts.spaces {g v : Text} {kind : LexemeKind}
    (h : ∀ atStart, Starts atStart regex [] false kind v rest) (hg : Spaces g) :
    Starts atStart regex g (g.any isLineBreak) kind v rest where
  space hn := gap_of_spaces hg (fun hn => (h _).space hn) hn
  lexeme := (h true).lexeme

end

/-! ## Rows of pieces -/

/-- What a piece asks for itself and of the text behind it. -/
def Stands (p : Piece) (rest : Text) : Prop :=
  match p with
  | .name x => x.isName = true ∧ Word.ofText? x = none ∧ Apart rest
  | .word _ => Apart rest
  | .punctuator p => isSingle p = true
  | .terminator _ => True

/-- A text is a row of pieces. -/
inductive Laid : Text → List Piece → Prop where
  | nil : Laid [] []
  | cons {g t : Text} {p : Piece} {ps : List Piece} : Spaces g → (p.tight = true → g = []) →
      Stands p t → Laid t ps → Laid (g ++ (p.text ++ t)) (p :: ps)

variable {t u : Text} {p : Piece} {ps qs : List Piece}

theorem isName_word (w : Word) : w.text.isName = true := by
  cases w <;> decide

theorem Stands.starts (h : Stands p t) (atStart regex : Bool) :
    Starts atStart regex [] false p.kind p.text t := by
  cases p with
  | name x => exact starts_name h.1 h.2.2
  | word w => exact starts_name (isName_word w) h
  | punctuator p => exact starts_single h
  | terminator tight => exact starts_single (p := .semicolon) rfl

theorem Stands.append (h : Stands p t) (hu : Apart u) : Stands p (t ++ u) := by
  cases p with
  | name x => exact ⟨h.1, h.2.1, apart_append h.2.2 hu⟩
  | word w => exact apart_append h hu
  | punctuator p => exact h
  | terminator tight => exact h

theorem Laid.append (h : Laid t ps) (hu : Apart u) (h' : Laid u qs) : Laid (t ++ u) (ps ++ qs) := by
  induction h with
  | nil => exact h'
  | cons hg htight hstands _ ih =>
    rw [List.append_assoc, List.append_assoc, List.cons_append]
    exact .cons hg htight (hstands.append hu) ih

/-- Pieces that white space may stand in front of. -/
def Loose (ps : List Piece) : Prop := ∃ p rest, ps = p :: rest ∧ p.tight = false

theorem Loose.append (h : Loose ps) (qs : List Piece) : Loose (ps ++ qs) := by
  obtain ⟨p, rest, rfl, hp⟩ := h
  exact ⟨p, rest ++ qs, rfl, hp⟩

theorem Laid.spaces {g : Text} (h : Laid t ps) (hg : Spaces g) (hps : Loose ps) :
    Laid (g ++ t) ps := by
  obtain ⟨p, rest, rfl, hp⟩ := hps
  cases h with
  | cons hspaces _ hstands hrest =>
    rw [← List.append_assoc]
    apply Laid.cons (spaces_append hg hspaces) _ hstands hrest
    intro htight
    rw [hp] at htight
    cases htight

/-- A row with a piece directly in front of it. -/
theorem Laid.behind (h : Laid t ps) (hp : Stands p t) : Laid (p.text ++ t) (p :: ps) :=
  .cons (g := []) nofun (fun _ => rfl) hp h

theorem Laid.one (hp : Stands p []) : Laid p.text [p] := by
  rw [← List.append_nil p.text]
  exact Laid.nil.behind hp

/-- A row of pieces in parentheses, and what follows it. -/
theorem Laid.parenthesized (h : Laid t ps) (h' : Laid u qs) :
    Laid (Print.parenthesized t ++ u)
      (.punctuator .leftParen :: (ps ++ .punctuator .rightParen :: qs)) := by
  have hclose : Laid (")" ++ u) (.punctuator .rightParen :: qs) :=
    h'.behind (p := .punctuator .rightParen) rfl
  have hrest := h.append (apart_append_left (by decide) (by decide) u) hclose
  have hopen : Laid ("(" ++ (t ++ (")" ++ u))) _ :=
    hrest.behind (p := .punctuator .leftParen) rfl
  rw [Print.parenthesized, List.append_assoc, List.append_assoc]
  exact hopen

theorem spaces_indent (depth : Nat) : Spaces (Print.indent depth) := by
  intro c hc
  obtain ⟨t, ht, hc⟩ := List.mem_flatten.1 hc
  rw [List.eq_of_mem_replicate ht] at hc
  have hblank : Spaces "  " := by decide
  exact hblank c hc

theorem spaces_newLine (depth : Nat) : Spaces (("\n" : Text) ++ Print.indent depth) :=
  spaces_append (by decide) (spaces_indent depth)

theorem newLine_ne_nil (depth : Nat) : ("\n" : Text) ++ Print.indent depth ≠ [] :=
  List.append_ne_nil_of_left_ne_nil (by decide) _

/-- White space that is there keeps what follows it apart. -/
theorem apart_spaces {g : Text} (hg : Spaces g) (hne : g ≠ []) (t : Text) : Apart (g ++ t) := by
  have hapart : Apart g := by
    rw [← List.append_nil g]
    exact apart_of_spaces hg nofun
  exact apart_append_left hapart hne t

/-- Rows on lines of their own. -/
theorem Laid.join {ts : List Text} {pss : List (List Piece)} (h : List.Forall₂ Laid ts pss)
    (hloose : ∀ ps ∈ pss, Loose ps) : Laid (Text.join "\n" ts) pss.flatten := by
  induction h with
  | nil => exact .nil
  | @cons t ps ts pss ht hts ih =>
    obtain ⟨-, hrest⟩ := List.forall_mem_cons.1 hloose
    cases hts with
    | nil =>
      show Laid [t].flatten [ps].flatten
      rwa [List.flatten_singleton, List.flatten_singleton]
    | @cons u qs ts pss hu hts =>
      have hspaced := (ih hrest).spaces (g := "\n") (by decide)
        ((hrest qs List.mem_cons_self).append pss.flatten)
      rw [Text.join, List.intercalate_cons_cons, List.append_assoc]
      exact ht.append (apart_spaces (by decide) (by decide) _) hspaced

/-- Rows on lines between braces. -/
theorem Laid.linesInBraces {ts : List Text} {pss : List (List Piece)} (h : List.Forall₂ Laid ts pss)
    (hloose : ∀ ps ∈ pss, Loose ps) (depth : Nat) :
    Laid (Print.linesInBraces depth ts)
      (.punctuator .leftBrace :: (pss.flatten ++ [.punctuator .rightBrace])) := by
  have hclose : Laid "\x7d" [.punctuator .rightBrace] := .one (p := .punctuator .rightBrace) rfl
  cases h with
  | nil =>
    have hopen : Laid ("\x7b" ++ "\x7d") _ := hclose.behind (p := .punctuator .leftBrace) rfl
    exact hopen
  | @cons t ps ts pss ht hts =>
    have hlines := Laid.join (.cons ht hts) hloose
    have hfirst : Loose (ps :: pss).flatten :=
      (hloose ps List.mem_cons_self).append pss.flatten
    have hend := hclose.spaces (spaces_newLine depth) ⟨_, _, rfl, rfl⟩
    have hrest := (hlines.spaces (g := "\n") (by decide) hfirst).append
      (apart_spaces (spaces_newLine depth) (newLine_ne_nil depth) _) hend
    have hopen := hrest.behind (p := .punctuator .leftBrace) rfl
    have htext : Print.linesInBraces depth (t :: ts) = "\x7b" ++ ("\n" ++
        Text.join "\n" (t :: ts) ++ ("\n" ++ Print.indent depth ++ "\x7d")) := by
      show "\x7b\n" ++ Text.join "\n" (t :: ts) ++ "\n" ++ Print.indent depth ++ "\x7d" = _
      have hbrace : ("\x7b\n" : Text) = "\x7b" ++ "\n" := rfl
      simp only [hbrace, List.append_assoc]
    rw [htext]
    exact hopen

/-- A row of pieces is cut into these pieces again. -/
theorem Laid.exists_scans (h : Laid t ps) {w : Text} (hw : Spaces w) (offset : Nat)
    (position : Position) (regex : Bool) :
    ∃ ls, Scans offset position regex (t ++ w) ls ∧ List.Forall₂ Piece.Spells ps ls := by
  induction h generalizing offset position regex with
  | nil =>
    have hend : ∀ {atStart : Bool} {n : Nat}, ([] : Text).length < n →
        gap atStart n [] = .ok ⟨0, false⟩ := by
      intro atStart n hn
      obtain ⟨n, rfl⟩ := Nat.exists_eq_add_of_le' hn
      apply gap_succ_ok.2
      refine .inl ⟨gapPiece_eq_none.2 ⟨rfl, ?_, rfl, rfl⟩, rfl⟩
      cases atStart <;> rfl
    have hdone : ∀ {n : Nat}, w.length < n →
        gap (decide (offset = 0)) n w = .ok ⟨w.length, w.any isLineBreak⟩ := by
      intro n hn
      rw [← List.append_nil w] at hn ⊢
      rw [gap_of_spaces hw hend hn, List.append_nil]
    exact ⟨[], .done hdone, .nil⟩
  | @cons g t p ps hg htight hstands _ ih =>
    have hapart : Apart w := by
      rw [← List.append_nil w]
      exact apart_of_spaces hw nofun
    have hstarts := fun atStart => (hstands.append hapart).starts atStart regex
    let l : Lexeme := ⟨p.kind, p.text, offset + g.length, position.advance g, g.any isLineBreak⟩
    obtain ⟨ls, hls, hspells⟩ := ih l.endOffset l.finish l.precedesRegex
    refine ⟨l :: ls, ?_, .cons ⟨rfl, rfl, ?_⟩ hspells⟩
    · rw [List.append_assoc, List.append_assoc]
      exact .cons (l := l) (Starts.spaces hstarts hg) rfl rfl hls
    · intro hp
      show g.any isLineBreak = false
      rw [htight hp]
      rfl

end Scanner

end ModuleLowering
