import ModuleLowering.Proofs.Pieces
import ModuleLowering.Proofs.Printing
import ModuleLowering.Registry.Call
import ModuleLowering.Token.StringLiteral

/-!
# Literals read back

A literal that a pass has made is printed from its value. Each code point of the value is written in
one of three ways: as itself, as a backslash and a letter or sign, or as a backslash and four
hexadecimal digits. The scanner passes over each of them without coming to the end of the string,
and resolving the escapes gives the code point back. So the text of such a literal is one lexeme, a
string, and its value is the one it was printed from.
-/

set_option autoImplicit false

namespace ModuleLowering

namespace StringLiteral

open Text (hex escaped shortEscape? quoted)
open Scanner (closeString?)

/-- Code points that stand for themselves in a string with double quotes and end nothing. -/
structure Ordinary (c : CodePoint) : Prop where
  ne_quote : c ≠ '"'
  ne_backslash : c ≠ '\\'
  ne_lineFeed : c ≠ '\n'

/-- A code point is written as this text between double quotes. -/
inductive WrittenAs (c : CodePoint) : Text → Prop where
  /-- As itself. -/
  | plain : Ordinary c → WrittenAs c [c]
  /-- With one code point behind a backslash. -/
  | short {d : CodePoint} : (∀ t, readEscape d t = .ok ([c], 0)) →
      WrittenAs c [CodePoint.ofChar '\\', d]
  /-- With the digits of its number, as control codes are. -/
  | digits : c.val < 0x20 →
      WrittenAs c (CodePoint.ofChar '\\' :: CodePoint.ofChar 'u' :: hex 4 c.val)

variable {c d : CodePoint} {w t v : Text} {n fuel : Nat}

/-! ## Four digits -/

/-- The number of a control code has four digits, the first of them zero. -/
theorem hex_control (h : n < 0x20) : (hex 4 n).length = 4 ∧
    (hex 4 n).all CodePoint.isHexDigit = true ∧ hexValue (hex 4 n) = n ∧
    (hex 4 n).head? = some (CodePoint.ofChar '0') := by
  revert n
  decide +kernel

theorem ordinary_of_isHexDigit (h : c.isHexDigit = true) : Ordinary c := by
  constructor
  all_goals
    rintro rfl
    revert h
    decide

/-- Four digits behind a `u` stand for their number, whatever comes behind them. -/
theorem readEscape_hex (h : c.val < 0x20) (t : Text) :
    readEscape (CodePoint.ofChar 'u') (hex 4 c.val ++ t) = .ok ([c], 4) := by
  obtain ⟨hlength, hdigits, hvalue, hhead⟩ := hex_control h
  have hbraced : bracedDigits? (hex 4 c.val ++ t) = none := by
    obtain ⟨rest, hrest⟩ := List.head?_eq_some_iff.1 hhead
    rw [hrest]
    rfl
  have hfour : hexDigits? 4 (hex 4 c.val ++ t) = some (hex 4 c.val) := by
    have htake : (hex 4 c.val ++ t).take 4 = hex 4 c.val := List.take_left' hlength
    simp only [hexDigits?, htake, hlength, hdigits]
    rfl
  have hpoint : hexPoint (hex 4 c.val) = .ok c := by
    simp [hexPoint, hvalue, CodePoint.ofNat?, c.isLt]
  simp only [readEscape, hbraced, hfour, hpoint, if_pos]
  rfl

/-! ## One code point -/

/-- A sign that announces no digits and belongs to no pair is an escape on its own. -/
theorem readEscape_simple (hu : d ≠ 'u') (hx : d ≠ 'x') (hreturn : d ≠ '\r') (t : Text) :
    readEscape d t = .ok (simpleEscape d, 0) := by
  unfold readEscape
  rw [if_neg hu, if_neg hx, if_neg (by simp [hreturn])]

/-- A short escape is undone by the reader. -/
theorem writtenAs_of_shortEscape (h : shortEscape? c = some w) : WrittenAs c w := by
  have hshort : ∀ d : CodePoint, simpleEscape d = [c] → d ≠ 'u' → d ≠ 'x' → d ≠ '\r' →
      WrittenAs c [CodePoint.ofChar '\\', d] := by
    intro d hmeant hu hx hreturn
    apply WrittenAs.short
    intro t
    rw [readEscape_simple hu hx hreturn, hmeant]
  have hcode : ∀ m : Char, c.val = m.toNat → c = m := by
    intro m hm
    cases c
    cases hm
    rfl
  unfold shortEscape? at h
  split_ifs at h with hquote hbackslash hline hreturn htab hbackspace hfeed
  all_goals cases h
  · subst hquote
    exact hshort '"' (by decide) (by decide) (by decide) (by decide)
  · subst hbackslash
    exact hshort '\\' (by decide) (by decide) (by decide) (by decide)
  · subst hline
    exact hshort 'n' (by decide) (by decide) (by decide) (by decide)
  · subst hreturn
    exact hshort 'r' (by decide) (by decide) (by decide) (by decide)
  · subst htab
    exact hshort 't' (by decide) (by decide) (by decide) (by decide)
  · obtain rfl := hcode '\x08' hbackspace
    exact hshort 'b' (by decide) (by decide) (by decide) (by decide)
  · obtain rfl := hcode '\x0c' hfeed
    exact hshort 'f' (by decide) (by decide) (by decide) (by decide)

theorem ordinary_of_shortEscape (h : shortEscape? c = none) : Ordinary c := by
  constructor
  all_goals
    rintro rfl
    revert h
    decide

/-- Every code point is written in one of the three ways. -/
theorem writtenAs_escaped (c : CodePoint) : WrittenAs c (escaped c) := by
  unfold escaped
  cases hshort : shortEscape? c with
  | some w => exact writtenAs_of_shortEscape hshort
  | none =>
    by_cases hcontrol : c.val < 0x20
    · simp only [hcontrol, if_true]
      exact .digits hcontrol
    · simp only [hcontrol, if_false]
      exact .plain (ordinary_of_shortEscape hshort)

/-! ## The end of the string -/

/-- What is ordinary is passed over on the way to the closing quote. -/
theorem closeString_ordinary (h : ∀ c ∈ w, Ordinary c) (t : Text) :
    closeString? '"' (w ++ t) = (closeString? '"' t).map (· + w.length) := by
  induction w with
  | nil => simp
  | cons c w ih =>
    obtain ⟨hc, hw⟩ := List.forall_mem_cons.1 h
    have hstep : closeString? '"' (c :: (w ++ t)) = (closeString? '"' (w ++ t)).map (· + 1) := by
      conv_lhs => unfold closeString?
      simp only [hc.ne_quote, hc.ne_lineFeed, hc.ne_backslash, if_false]
    rw [List.cons_append, hstep, ih hw, Option.map_map]
    rfl

theorem closeString_backslash (d : CodePoint) (t : Text) :
    closeString? '"' (CodePoint.ofChar '\\' :: d :: t) = (closeString? '"' t).map (· + 2) := by
  simp [closeString?, CodePoint.ofChar_inj]

/-- A written code point does not close the string. -/
theorem WrittenAs.closeString (h : WrittenAs c w) (t : Text) :
    closeString? '"' (w ++ t) = (closeString? '"' t).map (· + w.length) := by
  cases h with
  | plain hc =>
    apply closeString_ordinary
    intro d hd
    rwa [List.mem_singleton.1 hd]
  | short => exact closeString_backslash _ t
  | digits hc =>
    obtain ⟨-, hdigits, -⟩ := hex_control hc
    have hordinary : ∀ d ∈ hex 4 c.val, Ordinary d := fun d hd =>
      ordinary_of_isHexDigit (List.all_eq_true.1 hdigits d hd)
    rw [List.cons_append, List.cons_append, closeString_backslash, closeString_ordinary hordinary,
      Option.map_map]
    rfl

/-- The quote that a quoted text ends with is the one that closes it. -/
theorem closeString_escaped (v : Text) :
    closeString? '"' (v.flatMap escaped ++ [CodePoint.ofChar '"']) =
      some ((v.flatMap escaped).length + 1) := by
  induction v with
  | nil => rfl
  | cons c v ih =>
    rw [List.flatMap_cons, List.append_assoc, (writtenAs_escaped c).closeString, ih,
      Option.map_some, List.length_append]
    congr 1
    omega

/-! ## The value -/

/-- Resolving the escapes gives a written code point back. -/
theorem WrittenAs.resolve (h : WrittenAs c w) (fuel : Nat) (t : Text) :
    resolve (fuel + 1) (w ++ t) = (resolve fuel t).map (c :: ·) := by
  cases h with
  | plain hc =>
    simp only [List.singleton_append, StringLiteral.resolve, hc.ne_backslash, if_false]
    cases StringLiteral.resolve fuel t <;> rfl
  | short hread =>
    simp only [List.cons_append, List.nil_append, StringLiteral.resolve, hread, if_pos]
    cases hrest : StringLiteral.resolve fuel t <;> simp [bind, Except.bind, pure, Except.pure,
      hrest, Except.map]
  | digits hc =>
    have hdrop : (hex 4 c.val ++ t).drop 4 = t := List.drop_left' (hex_control hc).1
    simp only [List.cons_append, StringLiteral.resolve, readEscape_hex hc, if_pos]
    cases hrest : StringLiteral.resolve fuel t <;> simp [bind, Except.bind, pure, Except.pure,
      hdrop, hrest, Except.map]

theorem WrittenAs.length_pos (h : WrittenAs c w) : 0 < w.length := by
  cases h <;> simp

theorem resolve_escaped (h : v.length ≤ fuel) : resolve fuel (v.flatMap escaped) = .ok v := by
  induction v generalizing fuel with
  | nil => cases fuel <;> rfl
  | cons c v ih =>
    obtain ⟨fuel, rfl⟩ := Nat.exists_eq_add_of_le' (Nat.lt_of_lt_of_le (Nat.succ_pos _) h)
    rw [List.flatMap_cons, (writtenAs_escaped c).resolve, ih (Nat.le_of_succ_le_succ h)]
    rfl

theorem length_le_escaped (v : Text) : v.length ≤ (v.flatMap escaped).length := by
  induction v with
  | nil => exact Nat.le_refl _
  | cons c v ih =>
    have hc := (writtenAs_escaped c).length_pos
    rw [List.flatMap_cons, List.length_append, List.length_cons]
    omega

/-- Reading a quoted text undoes the quoting. -/
theorem value_quoted (v : Text) : value (quoted v) = .ok v := by
  have hbody : ((quoted v).drop 1).dropLast = v.flatMap escaped :=
    List.dropLast_concat
  unfold value
  rw [hbody]
  exact resolve_escaped (length_le_escaped v)

end StringLiteral

namespace Scanner

/-- A quoted text is one lexeme. -/
theorem scan_quoted (v : Text) :
    Lexeme.scan v.quoted = .ok [⟨.string, v.quoted, 0, .start, false⟩] := by
  have hcut : cut true '"' (v.flatMap Text.escaped ++ [CodePoint.ofChar '"'] ++ []) =
      .ok ⟨.string, (v.flatMap Text.escaped ++ [CodePoint.ofChar '"']).length + 1⟩ := by
    rw [List.append_nil, cut, if_pos (by decide), StringLiteral.closeString_escaped,
      List.length_append]
    rfl
  have hstarts : ∀ atStart, Starts atStart true [] false .string v.quoted [] := by
    intro atStart
    refine starts_of_cut (fun atStart => ?_) hcut
    apply gapPiece_eq_none.2
    refine ⟨rfl, ?_, rfl, rfl⟩
    cases atStart <;> rfl
  have hdone : ∀ {offset position}, Scans offset position false [] [] := by
    intro offset position
    have hgap : ∀ {n : Nat}, 0 < n → gap (offset = 0) n [] = .ok ⟨0, false⟩ := by
      intro n hn
      obtain ⟨n, rfl⟩ := Nat.exists_eq_add_of_le' hn
      cases decide (offset = 0) <;> rfl
    exact .done hgap
  have hscans := Scans.cons (l := ⟨.string, v.quoted, 0, .start, false⟩) (hstarts _) rfl rfl hdone
  rw [List.nil_append, List.append_nil] at hscans
  exact scan_iff.2 hscans

end Scanner

namespace Node

/-- A literal made from a text is printed between quotes, and never in parentheses. -/
theorem expression_textLiteral (c : Setting) {least : Nat} (h : least ≤ Precedence.primary)
    (v : Text) : Print.expression c least (some (textLiteral v).printed) = .ok v.quoted := by
  have hbare : Print.bare c (some (textLiteral v).printed) = .ok v.quoted := by
    rw [printed_eq]
    rfl
  have hin : Print.isIn (textLiteral v) = false := rfl
  have hprecedence : (textLiteral v).precedence = .ok Precedence.primary := rfl
  simp only [Print.expression, hbare, node_printed, hin, hprecedence, Bool.and_false, bind,
    Except.bind, pure, Except.pure]
  rw [if_neg]
  simpa using h

/-- A literal made from a text is printed as that text between quotes, wherever it stands; the
scanner takes what is printed as one string, and the value of this string is the text again. -/
theorem textLiteral_readBack (v : Text) : ∃ text,
    (∀ c, Print.whole c (some (textLiteral v).printed) = .ok text) ∧
      (∀ c, Print.item c (some (textLiteral v).printed) = .ok text) ∧
      Print.literal (some (textLiteral v).printed) = .ok text ∧
      Lexeme.scan text = .ok [⟨.string, text, 0, .start, false⟩] ∧
      StringLiteral.value text = .ok v := by
  refine ⟨v.quoted, ?_, ?_, ?_, Scanner.scan_quoted v, StringLiteral.value_quoted v⟩
  · intro c
    exact expression_textLiteral c (by decide) v
  · intro c
    exact expression_textLiteral c (by decide) v
  · rw [printed_eq]
    rfl

end Node

end ModuleLowering
