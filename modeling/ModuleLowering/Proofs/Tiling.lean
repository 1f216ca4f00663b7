import ModuleLowering.Proofs.Rescanning

/-!
# What a scan covers

The lexemes of a source and the gaps between them lie side by side and cover it. A gap is made of
runs of white space, comments and, at the very start, a line behind `#!`, and the lexeme behind it
notes whether it breaks the line.
-/

set_option autoImplicit false

namespace ModuleLowering

/-- The text from one place to another. -/
def Text.slice (t : Text) (i j : Nat) : Text := (t.drop i).take (j - i)

namespace Scanner

/-! ## Gaps -/

/-- A piece of a gap, the run of white space that it is if it is one, and what comes next. -/
inductive GapPiece (atStart : Bool) : Text → List Text → Text → Prop where
  | space {w next : Text} : w ≠ [] → (∀ c ∈ w, isSpace c = true) → NoSpace next →
      GapPiece atStart w [w] next
  /-- A comment through the end of its line. -/
  | line {w next : Text} : CodePoint.ofChar '\n' ∉ w → (∀ c ∈ next.head?, c = '\n') →
      GapPiece atStart ("//" ++ w) [] next
  /-- A comment through the first `*/`. -/
  | block {w next : Text} : ¬("*/" : Text) <:+: w → GapPiece atStart ("/*" ++ w ++ "*/") [] next
  /-- A line for the host, at the start of the source. -/
  | hashbang {w next : Text} : atStart = true → CodePoint.ofChar '\n' ∉ w →
      (∀ c ∈ next.head?, c = '\n') → GapPiece atStart ("#!" ++ w) [] next

/-- A gap, the runs of white space in it, and what comes next. -/
inductive GapText : Bool → Text → List Text → Text → Prop where
  | nil {atStart : Bool} {next : Text} : GapText atStart [] [] next
  | cons {atStart : Bool} {w g next : Text} {runs more : List Text} :
      GapPiece atStart w runs (g ++ next) → GapText false g more next →
        GapText atStart (w ++ g) (runs ++ more) next

/-- A gap has a line feed, or a run of white space in it has another line break. -/
def BreaksLine (g : Text) (runs : List Text) : Prop :=
  CodePoint.ofChar '\n' ∈ g ∨ ∃ run ∈ runs, ∃ c ∈ run, c.val = 0x2028 ∨ c.val = 0x2029

theorem breaksLine_append {w g : Text} {runs more : List Text} :
    BreaksLine (w ++ g) (runs ++ more) ↔ BreaksLine w runs ∨ BreaksLine g more := by
  simp only [BreaksLine, List.mem_append]
  grind

/-- A run of white space breaks the line if there is a line break in it. -/
theorem breaksLine_run {w : Text} : BreaksLine w [w] ↔ w.any isLineBreak = true := by
  simp only [BreaksLine, isLineBreak, List.any_eq_true, List.mem_singleton, exists_eq_left,
    Bool.or_eq_true, decide_eq_true_eq]
  grind

section

variable {atStart : Bool} {t : Text} {piece : Gap} {n : Nat}

theorem commentBody_slice (h : commentBody? t = some n) :
    ∃ w rest : Text, t = w ++ ("*/" ++ rest) ∧ w.length = n ∧ ¬("*/" : Text) <:+: w := by
  fun_induction commentBody? t generalizing n with
  | case1 => cases h
  | case2 c rest hclose =>
    cases h
    rw [Bool.and_eq_true, decide_eq_true_eq, decide_eq_true_eq] at hclose
    obtain ⟨u, rfl⟩ := List.head?_eq_some_iff.1 hclose.2
    obtain ⟨rfl, -⟩ := hclose
    exact ⟨[], u, rfl, rfl, by simp [Text.ofString]⟩
  | case3 c rest hclose ih =>
    obtain ⟨m, hm, rfl⟩ := Option.map_eq_some_iff.1 h
    obtain ⟨w, u, rfl, rfl, hnone⟩ := ih hm
    refine ⟨c :: w, u, rfl, rfl, fun hin => ?_⟩
    rcases List.infix_cons_iff.1 hin with ⟨v, hv⟩ | hlater
    · -- The closing would have been found here.
      obtain ⟨rfl, rfl⟩ := List.cons_eq_cons.1 hv
      exact hclose rfl
    · exact hnone hlater

theorem take_takeWhile (p : CodePoint → Bool) (t : Text) :
    t.take (t.takeWhile p).length = t.takeWhile p :=
  (List.prefix_iff_eq_take.1 (List.takeWhile_prefix p)).symm

/-- What comes behind a run does not go on with it. -/
theorem not_of_mem_head_drop {p : CodePoint → Bool} {t : Text} {c : CodePoint}
    (h : c ∈ (t.drop (t.takeWhile p).length).head?) : p c = false := by
  have hdrop : t.drop (t.takeWhile p).length = t.dropWhile p :=
    calc t.drop (t.takeWhile p).length
      _ = (t.takeWhile p ++ t.dropWhile p).drop (t.takeWhile p).length := by
        rw [List.takeWhile_append_dropWhile]
      _ = t.dropWhile p := List.drop_left
  have hnot := List.head?_dropWhile_not p t
  rw [hdrop] at h
  rw [h] at hnot
  exact hnot

theorem restOfLine_slice (t : Text) :
    CodePoint.ofChar '\n' ∉ t.take (restOfLine t) ∧
      ∀ c ∈ (t.drop (restOfLine t)).head?, c = '\n' := by
  constructor
  · unfold restOfLine
    rw [take_takeWhile]
    intro hin
    simpa using List.mem_takeWhile_imp hin
  · intro c hc
    simpa using not_of_mem_head_drop hc

/-- A piece that is read is one of these. -/
theorem gapPiece_text (h : gapPiece? atStart t = .ok (some piece)) :
    ∃ runs, GapPiece atStart (t.take piece.length) runs (t.drop piece.length) ∧
      (piece.lineBreak = true ↔ BreaksLine (t.take piece.length) runs) := by
  rcases gapPiece_cases h with ⟨hne, rfl⟩ | ⟨c, d, u, rfl, hopen, rfl⟩ | ⟨u, n, rfl, hbody, rfl⟩
  · refine ⟨[t.takeWhile isSpace], ?_, ?_⟩
    · rw [take_takeWhile]
      exact .space hne (fun c hc => List.mem_takeWhile_imp hc) fun c hc => not_of_mem_head_drop hc
    · rw [take_takeWhile]
      exact breaksLine_run.symm
  · obtain ⟨-, hc, hd⟩ := opensLine_not_space hopen
    have hlen : restOfLine (c :: d :: u) = restOfLine u + 2 := by
      simp [restOfLine, hc, hd]
    obtain ⟨hline, hnext⟩ := restOfLine_slice u
    refine ⟨[], ?_, ?_⟩
    · simp only [hlen, List.take_succ_cons, List.drop_succ_cons]
      simp only [opensLine, Bool.or_eq_true, Bool.and_eq_true, decide_eq_true_eq] at hopen
      rcases hopen with ⟨hstart, rfl, rfl⟩ | ⟨rfl, rfl⟩
      · exact .hashbang hstart hline hnext
      · exact .line hline hnext
    · simp only [hlen, List.take_succ_cons]
      simp [BreaksLine, hline, Ne.symm hc, Ne.symm hd]
  · obtain ⟨w, rest, rfl, rfl, hnone⟩ := commentBody_slice hbody
    have hcut : ("/*" : Text) ++ (w ++ ("*/" ++ rest)) = "/*" ++ w ++ "*/" ++ rest := by
      simp only [List.append_assoc]
    have hlen : w.length + 4 = ("/*" ++ w ++ "*/" : Text).length := by
      simp [Text.ofString]
    refine ⟨[], ?_, ?_⟩
    · show GapPiece atStart ((("/*" : Text) ++ (w ++ ("*/" ++ rest))).take (w.length + 4)) []
        ((("/*" : Text) ++ (w ++ ("*/" ++ rest))).drop (w.length + 4))
      rw [hcut, hlen, List.take_left, List.drop_left]
      exact .block hnone
    · show ((w ++ ("*/" ++ rest)).take w.length).any _ = true ↔
        BreaksLine ((("/*" : Text) ++ (w ++ ("*/" ++ rest))).take (w.length + 4)) []
      rw [hcut, hlen, List.take_left, List.take_left]
      simp [BreaksLine, Text.ofString, CodePoint.ofChar_inj]

/-- What is read as a gap is made of such pieces. -/
theorem gap_text {g : Gap} (h : gap atStart n t = .ok g) :
    ∃ runs, GapText atStart (t.take g.length) runs (t.drop g.length) ∧
      (g.lineBreak = true ↔ BreaksLine (t.take g.length) runs) := by
  induction n generalizing t g atStart with
  | zero =>
    cases h
    exact ⟨[], .nil, by simp [BreaksLine]⟩
  | succ n ih =>
    rcases gap_succ_ok.1 h with ⟨-, rfl⟩ | ⟨piece, next, hpiece, hnext, rfl⟩
    · exact ⟨[], .nil, by simp [BreaksLine]⟩
    · obtain ⟨runs, hrun, hbreak⟩ := gapPiece_text hpiece
      obtain ⟨more, hmore, hbreaks⟩ := ih hnext
      have htake : t.take (piece.length + next.length) =
          t.take piece.length ++ (t.drop piece.length).take next.length := List.take_add
      refine ⟨runs ++ more, ?_, ?_⟩
      · show GapText atStart (t.take (piece.length + next.length)) _
          (t.drop (piece.length + next.length))
        rw [htake, ← List.drop_drop]
        refine .cons ?_ hmore
        rwa [List.take_append_drop]
      · show (piece.lineBreak || next.lineBreak) = true ↔
          BreaksLine (t.take (piece.length + next.length)) _
        rw [htake, breaksLine_append, Bool.or_eq_true, hbreak, hbreaks]

end

end Scanner

/-! ## Lexemes -/

namespace Lexeme

/-- Where a text goes on behind lexemes, if it begins at a place. -/
def placeAfter (place : Nat) : List Lexeme → Nat
  | [] => place
  | l :: ls => placeAfter l.endOffset ls

/-- A lexeme lies in a source, with nothing but a gap between it and a place. -/
structure LiesBehind (source : Text) (place : Nat) (l : Lexeme) : Prop where
  behind : place ≤ l.offset
  nonempty : l.offset < l.endOffset
  within : l.endOffset ≤ source.length
  text : l.text = source.slice l.offset l.endOffset
  gap : ∃ runs, Scanner.GapText (place = 0) (source.slice place l.offset) runs
      (source.drop l.offset) ∧
    (l.lineBreakBefore = true ↔ Scanner.BreaksLine (source.slice place l.offset) runs)

/-- Lexemes cover a source from a place on, with gaps between them and behind them. -/
structure Tiling (source : Text) (place : Nat) (ls : List Lexeme) : Prop where
  lexeme : ∀ before l after, ls = before ++ l :: after →
    l.LiesBehind source (placeAfter place before)
  rest : ∃ runs, Scanner.GapText (placeAfter place ls = 0) (source.drop (placeAfter place ls)) runs []

end Lexeme

namespace Scanner

theorem tiling_of_scans {p t : Text} {position : Position} {regex : Bool} {ls : List Lexeme}
    (h : Scans p.length position regex t ls) : Lexeme.Tiling (p ++ t) p.length ls := by
  generalize hplace : p.length = place at h
  induction h generalizing p with
  | @done place position regex lineBreak t hspace =>
    obtain ⟨runs, hgap, -⟩ := gap_text (hspace (Nat.lt_succ_self _))
    refine ⟨fun before l after h => ?_, runs, ?_⟩
    · cases before <;> cases h
    · show GapText _ ((p ++ t).drop place) runs []
      rw [← hplace, List.drop_left, hplace]
      rwa [List.take_length, List.drop_length] at hgap
  | @cons place position regex g rest l ls hstarts hoffset _ _ ih =>
    have hsource : p ++ (g ++ (l.text ++ rest)) = p ++ g ++ l.text ++ rest := by
      simp only [List.append_assoc]
    have hend : (p ++ g ++ l.text).length = l.endOffset := by
      rw [Lexeme.endOffset, hoffset, List.length_append, List.length_append, hplace]
    have hrest := ih hend
    rw [← hsource] at hrest
    refine ⟨fun before m after hls => ?_, hrest.rest⟩
    cases before with
    | cons first before =>
      obtain ⟨rfl, hmore⟩ := List.cons_eq_cons.1 hls
      exact hrest.lexeme before m after hmore
    | nil =>
      obtain ⟨rfl, -⟩ := List.cons_eq_cons.1 hls
      show l.LiesBehind _ place
      obtain ⟨c, u, hu, -⟩ := hstarts.exists_cons
      have hslice : (p ++ (g ++ (l.text ++ rest))).slice place l.offset = g := by
        rw [Text.slice, ← hplace, List.drop_left, hoffset, ← hplace, Nat.add_sub_cancel_left,
          List.take_left]
      have hdrop : (p ++ (g ++ (l.text ++ rest))).drop l.offset = l.text ++ rest := by
        rw [hoffset, ← hplace, List.drop_length_add_append, List.drop_left]
      obtain ⟨runs, hgap, hbreak⟩ := gap_text (hstarts.space (Nat.lt_succ_self _))
      rw [List.take_left, List.drop_left] at hgap
      rw [List.take_left] at hbreak
      constructor
      case behind => omega
      case nonempty =>
        rw [Lexeme.endOffset, hu, List.length_cons]
        omega
      case within =>
        rw [← hend, hsource]
        exact (List.prefix_append _ _).length_le
      case text =>
        rw [Text.slice, hdrop, Lexeme.endOffset, Nat.add_sub_cancel_left, List.take_left]
      case gap =>
        rw [hslice, hdrop]
        exact ⟨runs, hgap, hbreak⟩

end Scanner

/-- Scanning loses nothing: the lexemes and the gaps cover the source. -/
theorem Lexeme.tiling_of_scan {source : Text} {ls : List Lexeme} (h : scan source = .ok ls) :
    Tiling source 0 ls :=
  Scanner.tiling_of_scans (p := []) (Scanner.scan_iff.1 h)

theorem Lexeme.tiling_of_scan_hashbang :
    ∃ ls, scan "#!a\n b // c\n/* d\n */ + /e[/]/ ;" = .ok ls ∧ ls.length = 4 ∧
      Tiling "#!a\n b // c\n/* d\n */ + /e[/]/ ;" 0 ls := by
  have hlength : (scan "#!a\n b // c\n/* d\n */ + /e[/]/ ;").map List.length = .ok 4 := by
    decide +kernel
  cases hscan : scan "#!a\n b // c\n/* d\n */ + /e[/]/ ;" with
  | error stop =>
    rw [hscan] at hlength
    cases hlength
  | ok ls =>
    rw [hscan] at hlength
    exact ⟨ls, rfl, Except.ok.inj hlength, tiling_of_scan hscan⟩

end ModuleLowering
