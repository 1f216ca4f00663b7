import ModuleLowering.Proofs.Rescanning

/-!
# Lexemes with blanks between them

The texts of the lexemes of a source can be written one after the other with a blank between each
two. Every lexeme is found again there: a blank ends it where the source did, nothing of a gap
starts with it, and a slash stands behind the same lexeme as before.
-/

set_option autoImplicit false

namespace ModuleLowering

/-- What a lexeme is, apart from where it stands. -/
def Lexeme.content (l : Lexeme) : LexemeKind × Text := (l.kind, l.text)

namespace Scanner

/-! ## One lexeme -/

section

variable {atStart regex lineBreak : Bool} {g v t rest b : Text} {kind : LexemeKind} {n : Nat}

/-- Behind a gap no other piece of it starts. -/
theorem gapPiece_drop_gap {found : Gap} (h : gap atStart n t = .ok found) (hn : t.length < n) :
    gapPiece? false (t.drop found.length) = .ok none := by
  induction n generalizing t found atStart with
  | zero => exact absurd hn (Nat.not_lt_zero _)
  | succ n ih =>
    rcases gap_succ_ok.1 h with ⟨hnone, rfl⟩ | ⟨piece, next, hpiece, hnext, rfl⟩
    · obtain ⟨hspace, -, hline, hblock⟩ := gapPiece_eq_none.1 hnone
      exact gapPiece_eq_none.2 ⟨hspace, rfl, hline, hblock⟩
    · obtain ⟨hpos, hle⟩ := gapPiece_length hpiece
      have hrest := ih hnext (by rw [List.length_drop]; omega)
      rwa [List.drop_drop] at hrest

/-- A name that starts with `#` is a `#` alone if no part of a name comes next. -/
theorem cut_hash {found : Cut} (h : cut regex (CodePoint.ofChar '#') rest = .ok found) :
    found.length = 1 + (rest.takeWhile isNamePart).length := by
  have hquote : (CodePoint.ofChar '#' = '\'' || CodePoint.ofChar '#' = '"') = false := by decide
  have hback : ¬(CodePoint.ofChar '#').val = 0x60 := by decide
  have hslash : (decide (CodePoint.ofChar '#' = '/') && regex) = false := by cases regex <;> decide
  have hnumeral : startsNumeral (CodePoint.ofChar '#' :: rest) = false := by
    have hdigit : CodePoint.isDigit (CodePoint.ofChar '#') = false := by decide
    simp [startsNumeral, hdigit, CodePoint.ofChar_inj]
  have hname : isNameStart (CodePoint.ofChar '#') = true := by decide
  simp only [cut, hquote, hback, hslash, hnumeral, hname, Bool.false_eq_true, if_false, if_true,
    Except.ok.injEq] at h
  rw [← h]

namespace Starts

/-- No lexeme can be taken for the line that may stand at the start of a source. -/
theorem not_hashbang (h : Starts atStart regex g lineBreak kind v rest) (hb : AtBreak b) :
    Text.startsWith (v ++ b) "#!" = false := by
  obtain ⟨c, u, rfl, hcut⟩ := h.exists_cons
  rw [Bool.eq_false_iff]
  intro hstarts
  obtain ⟨w, hw⟩ := (startsWith_pair (p := '#') (q := '!')).1 hstarts
  obtain ⟨rfl, hbang⟩ := List.cons_eq_cons.1 hw
  cases u with
  | nil =>
    have hbreak : isBreak (CodePoint.ofChar '!') = true := by
      refine hb _ ?_
      rw [show b = CodePoint.ofChar '!' :: w from hbang]
      rfl
    exact absurd hbreak (by decide)
  | cons d u =>
    obtain ⟨rfl, -⟩ := List.cons_eq_cons.1 hbang
    have hshort := cut_hash hcut
    rw [List.cons_append, List.takeWhile_cons_of_neg (by decide)] at hshort
    simp at hshort

/-- A lexeme stands at the start of a text as it stands behind a gap, and it ends at a break. -/
theorem alone (h : Starts atStart regex g lineBreak kind v rest) (hb : AtBreak b)
    {atStart' : Bool} : Starts atStart' regex [] false kind v b := by
  have hhash := h.not_hashbang hb
  have hgap := gapPiece_drop_gap (h.space (Nat.lt_succ_self _)) (Nat.lt_succ_self _)
  obtain ⟨c, u, rfl, hcut⟩ := h.exists_cons
  rw [List.drop_left] at hgap
  have hnone := gapPiece_none_broken (w := u) (a := rest) hb hgap
  obtain ⟨hspace, -, hline, hblock⟩ := gapPiece_eq_none.1 hnone
  constructor
  · intro n hn
    obtain ⟨n, rfl⟩ := Nat.exists_eq_add_of_le' (Nat.lt_of_le_of_lt (Nat.zero_le _) hn)
    refine gap_succ_ok.2 (.inl ⟨gapPiece_eq_none.2 ⟨hspace, ?_, hline, hblock⟩, rfl⟩)
    rw [List.nil_append, hhash, Bool.and_false]
  · refine firstCut_of_cut (cut_broken hb hcut (Nat.le_refl _) fun hu hlength => ?_)
    rw [hu] at hlength
    cases hlength

end Starts

end

/-! ## Whole texts -/

section

variable {offset : Nat} {position : Position} {regex : Bool} {t : Text} {ls : List Lexeme}

/-- A blank in front of what is left of a text changes nothing. -/
theorem Scans.blank (h : Scans (offset + 1) (position.advance " ") regex t ls) :
    Scans offset position regex (" " ++ t) ls := by
  have hblank : ∀ c ∈ (" " : Text), isSpace c = true := by decide
  have hne : (" " : Text) ≠ [] := by decide
  have hfuel : ∀ {u : Text} {n : Nat}, (" " ++ u : Text).length < n → u.length < n := by
    intro u n hn
    rw [List.length_append] at hn
    omega
  cases h with
  | @done _ _ _ lineBreak _ hspace =>
    have hgap {n : Nat} (hn : (" " ++ t : Text).length < n) : gap (offset = 0) n (" " ++ t) =
        .ok ⟨(" " ++ t : Text).length, lineBreak⟩ := by
      rw [gap_spaces hblank (hspace (hfuel hn)) (hfuel hn) hn hne, List.length_append]
      rfl
    exact .done hgap
  | @cons _ _ _ g rest l ls hstarts hplace hstart hrest =>
    rw [← List.append_assoc]
    refine .cons ⟨fun {n} hn => ?_, hstarts.lexeme⟩ ?_ ?_ hrest
    · rw [List.append_assoc] at hn ⊢
      rw [gap_spaces hblank (hstarts.space (hfuel hn)) (hfuel hn) hn hne, List.length_append]
      rfl
    · rw [hplace, List.length_append, Nat.add_assoc]
      rfl
    · rw [hstart, Position.advance_append]

/-- Wherever the lexemes of a text are written with blanks between them, they are found again. -/
theorem Scans.spaced (h : Scans offset position regex t ls) (o : Nat) (p : Position) :
    ∃ ms, Scans o p regex (Text.join " " (ls.map Lexeme.text)) ms ∧
      ms.map Lexeme.content = ls.map Lexeme.content := by
  induction h generalizing o p with
  | done =>
    have hgap {n : Nat} (hn : 0 < n) : gap (o = 0) n [] = .ok ⟨0, false⟩ := by
      obtain ⟨n, rfl⟩ := Nat.exists_eq_add_of_le' hn
      exact gap_succ_ok.2 (.inl ⟨gapPiece_eq_none.2 ⟨rfl, Bool.and_false _, rfl, rfl⟩, rfl⟩)
    exact ⟨[], .done hgap, rfl⟩
  | @cons offset position regex g rest l ls hstarts _ _ _ ih =>
    -- Behind the lexeme the text ends, or goes on with a blank and the other lexemes.
    obtain ⟨b, ms, hb, hjoin, hms, hcontents⟩ : ∃ b ms, AtBreak b ∧
        Text.join " " ((l :: ls).map Lexeme.text) = l.text ++ b ∧
        Scans (o + l.text.length) (p.advance l.text) l.precedesRegex b ms ∧
        ms.map Lexeme.content = ls.map Lexeme.content := by
      cases ls with
      | nil =>
        obtain ⟨ms, hms, hcontents⟩ := ih (o + l.text.length) (p.advance l.text)
        exact ⟨[], ms, atBreak_nil, by simp [Text.join], hms, hcontents⟩
      | cons m ls =>
        obtain ⟨ms, hms, hcontents⟩ := ih (o + l.text.length + 1) ((p.advance l.text).advance " ")
        refine ⟨" " ++ Text.join " " ((m :: ls).map Lexeme.text), ms,
          atBreak_cons (by decide) _, ?_, hms.blank, hcontents⟩
        simp only [List.map_cons, Text.join, List.intercalate_cons_cons, List.append_assoc]
    have hwhole : Scans o p regex ([] ++ (l.text ++ b))
        ({ l with offset := o, start := p, lineBreakBefore := false } :: ms) :=
      .cons (l := { l with offset := o, start := p, lineBreakBefore := false })
        (hstarts.alone hb) rfl rfl hms
    rw [hjoin]
    exact ⟨_, hwhole, by rw [List.map_cons, List.map_cons, hcontents]; rfl⟩

end

end Scanner

/-- Lexemes delimit themselves: written with single blanks between them, the texts of the lexemes
of a source are scanned, and they are the texts of lexemes of the same kinds again. -/
theorem Lexeme.scan_spaced {source : Text} {ls : List Lexeme} (h : scan source = .ok ls) :
    ∃ ms, scan (Text.join " " (ls.map Lexeme.text)) = .ok ms ∧ ms.map content = ls.map content := by
  obtain ⟨ms, hms, hcontents⟩ := (Scanner.scan_iff.1 h).spaced 0 .start
  exact ⟨ms, Scanner.scan_iff.2 hms, hcontents⟩

/-- A numeral behind a question mark, a slash that divides and one that does not. -/
theorem Lexeme.scan_spaced_slashes :
    ∃ ls ms, scan "#!a\nb?.5:c/1.e3n/* d\n *//(/[/]/g)++/`$\x7b'\x7d'\x7d`" = .ok ls ∧
      scan "b ? .5 : c / 1.e3n / ( /[/]/g ) ++ / `$\x7b'\x7d'\x7d`" = .ok ms ∧
      ls.length = 14 ∧ ms.map content = ls.map content := by
  have hjoin : (scan "#!a\nb?.5:c/1.e3n/* d\n *//(/[/]/g)++/`$\x7b'\x7d'\x7d`").map
      (fun ls => (ls.length, Text.join " " (ls.map Lexeme.text))) =
      .ok (14, ("b ? .5 : c / 1.e3n / ( /[/]/g ) ++ / `$\x7b'\x7d'\x7d`" : Text)) := by
    decide +kernel
  obtain ⟨ls, hscan, hls⟩ := exists_of_map_scan hjoin
  obtain ⟨hlength, htext⟩ := Prod.mk.inj hls
  obtain ⟨ms, hms, hcontents⟩ := scan_spaced hscan
  rw [htext] at hms
  exact ⟨ls, ms, hscan, hms, hlength, hcontents⟩

end ModuleLowering
