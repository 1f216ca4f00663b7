import Mathlib.Data.List.Induction
import ModuleLowering.Proofs.Tiling

/-!
# Where lexemes are

A lexeme knows the line and the column of its start and of its end. They are counted along while
the text is read, and they are those of its two offsets: the line is told by the line feeds before,
and the column by the distance from the last of them. A scan that stops tells a place as well. It
is that of the comment or lexeme that cannot be read, but for a string inside a template, whose
distance is counted on the line where the template starts.
-/

set_option autoImplicit false

namespace ModuleLowering

/-! ## Lines and columns -/

/-- The line that an offset of a text lies on starts at `start`: there the text starts or a line
feed has ended, and no other line feed lies between. -/
structure Text.LineStartsAt (t : Text) (start offset : Nat) : Prop where
  le : start ≤ offset
  opens : start = 0 ∨ t[start - 1]? = some (CodePoint.ofChar '\n')
  unbroken : CodePoint.ofChar '\n' ∉ t.slice start offset

/-- A position is the line and the column of an offset of a text. -/
structure Position.IsAt (p : Position) (t : Text) (offset : Nat) : Prop where
  within : offset ≤ t.length
  line : p.line = 1 + (t.take offset).count (CodePoint.ofChar '\n')
  column : ∃ start, t.LineStartsAt start offset ∧ p.column = offset - start + 1

namespace Text

variable {t : Text} {i j k : Nat}

theorem slice_append (hij : i ≤ j) (hjk : j ≤ k) : t.slice i k = t.slice i j ++ t.slice j k := by
  have hlength : k - i = (j - i) + (k - j) := by omega
  have hplace : i + (j - i) = j := by omega
  rw [slice, slice, slice, hlength, List.take_add, List.drop_drop, hplace]

theorem take_slice (hij : i ≤ j) : t.take j = t.take i ++ t.slice i j := by
  have hwhole := slice_append (t := t) (Nat.zero_le i) hij
  simpa [slice] using hwhole

theorem slice_self : t.slice i i = [] := by
  simp [slice]

namespace LineStartsAt

variable {start start' : Nat}

theorem count_take (h : t.LineStartsAt start i) :
    (t.take i).count (CodePoint.ofChar '\n') = (t.take start).count (CodePoint.ofChar '\n') := by
  rw [take_slice h.le, List.count_append, List.count_eq_zero.2 h.unbroken, Nat.add_zero]

theorem le_of_count_le (hi : t.LineStartsAt start i) (hj : t.LineStartsAt start' j)
    (hcount : (t.take j).count (CodePoint.ofChar '\n') ≤
      (t.take i).count (CodePoint.ofChar '\n')) : start' ≤ start := by
  by_contra hlt
  -- The line feed before the later start is behind the earlier one.
  have hget : t[start' - 1]? = some (CodePoint.ofChar '\n') := hj.opens.resolve_left (by omega)
  have hbreak : CodePoint.ofChar '\n' ∈ t.slice start start' := by
    refine List.mem_iff_getElem?.2 ⟨start' - 1 - start, ?_⟩
    rw [slice, List.getElem?_take_of_lt (by omega), List.getElem?_drop,
      Nat.add_sub_cancel' (by omega), hget]
  have hpos := List.count_pos_iff.2 hbreak
  rw [hi.count_take, hj.count_take, take_slice (by omega : start ≤ start'),
    List.count_append] at hcount
  omega

/-- Two offsets with as many line feeds before them lie on the same line. -/
theorem eq_of_count (hi : t.LineStartsAt start i) (hj : t.LineStartsAt start' j)
    (hcount : (t.take i).count (CodePoint.ofChar '\n') =
      (t.take j).count (CodePoint.ofChar '\n')) : start = start' :=
  Nat.le_antisymm (hj.le_of_count_le hi hcount.le) (hi.le_of_count_le hj hcount.ge)

end LineStartsAt

end Text

namespace Position

variable {p : Position} {t : Text} {c : CodePoint} {i j : Nat}

/-- The position behind a code point. -/
theorem IsAt.next (h : p.IsAt t i) (hc : t[i]? = some c) : (p.next c).IsAt t (i + 1) := by
  obtain ⟨hi, rfl⟩ := List.getElem?_eq_some_iff.1 hc
  obtain ⟨start, hstart, hcolumn⟩ := h.column
  have hslice : t.slice i (i + 1) = [t[i]] := by
    rw [Text.slice, List.drop_eq_getElem_cons hi, Nat.add_sub_cancel_left, List.take_succ_cons,
      List.take_zero]
  have htake : t.take (i + 1) = t.take i ++ [t[i]] := by
    rw [Text.take_slice (Nat.le_succ i), hslice]
  unfold Position.next
  split
  case isTrue hbreak =>
    refine ⟨hi, ?_, i + 1, ⟨Nat.le_refl _, .inr ?_, ?_⟩, ?_⟩
    · rw [htake, hbreak, List.count_append, List.count_singleton_self, h.line, Nat.add_assoc]
    · rw [Nat.add_sub_cancel, hc, hbreak]
    · rw [Text.slice_self]
      exact List.not_mem_nil
    · rw [Nat.sub_self]
  case isFalse hsame =>
    have hle := hstart.le
    refine ⟨hi, ?_, start, ⟨by omega, hstart.opens, ?_⟩, ?_⟩
    · rw [htake, List.count_append, List.count_singleton, if_neg (by simpa using hsame),
        Nat.add_zero]
      exact h.line
    · rw [Text.slice_append hle (Nat.le_succ i), hslice, List.mem_append, List.mem_singleton]
      rintro (hbreak | hbreak)
      · exact hstart.unbroken hbreak
      · exact hsame hbreak.symm
    · show p.column + 1 = _
      omega

/-- A position that is advanced over the start of a text is the one behind it. -/
theorem isAt_advance (u v : Text) : (Position.start.advance u).IsAt (u ++ v) u.length := by
  induction u using List.reverseRecOn generalizing v with
  | nil => exact ⟨Nat.zero_le _, rfl, 0, ⟨Nat.le_refl 0, .inl rfl, List.not_mem_nil⟩, rfl⟩
  | append_singleton u c ih =>
    have hstep : start.advance (u ++ [c]) = (start.advance u).next c := advance_append start u [c]
    have hc : (u ++ ([c] ++ v))[u.length]? = some c := by simp
    rw [hstep, List.append_assoc, List.length_append]
    exact (ih ([c] ++ v)).next hc

/-- A position some columns further on the line of an offset is that of the offset as much further,
if no line feed lies between, and else of none. -/
theorem IsAt.onLine_iff {o : Nat} (h : p.IsAt t i) (hj : i + j ≤ t.length) :
    (p.onLine j).IsAt t o ↔ o = i + j ∧ CodePoint.ofChar '\n' ∉ t.slice i (i + j) := by
  obtain ⟨start, hstart, hcolumn⟩ := h.column
  have hle := hstart.le
  have htake : t.take (i + j) = t.take i ++ t.slice i (i + j) := Text.take_slice (by omega)
  have hline := h.line
  constructor
  · intro hplace
    obtain ⟨start', hstart', hcolumn'⟩ := hplace.column
    have hline' := hplace.line
    simp only [onLine] at hcolumn' hline'
    obtain rfl := hstart'.eq_of_count hstart (by omega)
    have hle' := hstart'.le
    obtain rfl : o = i + j := by omega
    refine ⟨rfl, fun hbreak => ?_⟩
    have hpos := List.count_pos_iff.2 hbreak
    rw [htake, List.count_append] at hline'
    omega
  · rintro ⟨rfl, hnone⟩
    refine ⟨hj, ?_, start, ⟨by omega, hstart.opens, ?_⟩, ?_⟩
    · rw [htake, List.count_append, List.count_eq_zero.2 hnone, Nat.add_zero]
      exact hline
    · rw [Text.slice_append hle (by omega), List.mem_append, not_or]
      exact ⟨hstart.unbroken, hnone⟩
    · show p.column + j = _
      omega

end Position

/-! ## The places of lexemes -/

namespace Scanner

/-- A lexeme stands behind a part of the text, and at the position that this part leads to. -/
theorem Scans.splits {p t : Text} {position : Position} {regex : Bool} {ls : List Lexeme}
    (h : Scans p.length position regex t ls) (hposition : position = Position.start.advance p) :
    ∀ l ∈ ls, ∃ u v, p ++ t = u ++ (l.text ++ v) ∧ l.offset = u.length ∧
      l.start = Position.start.advance u := by
  generalize hplace : p.length = place at h
  induction h generalizing p with
  | done => exact List.forall_mem_nil _
  | @cons place position regex g rest l ls hstarts hoffset hstart _ ih =>
    have hu : l.start = Position.start.advance (p ++ g) := by
      rw [Position.advance_append, ← hposition, hstart]
    intro m hm
    rcases List.mem_cons.1 hm with rfl | hm
    · refine ⟨p ++ g, rest, by rw [List.append_assoc], ?_, hu⟩
      rw [hoffset, List.length_append, hplace]
    · have hfinish : l.finish = Position.start.advance (p ++ g ++ l.text) := by
        rw [Position.advance_append, ← hu]
        rfl
      have hend : (p ++ g ++ l.text).length = l.endOffset := by
        rw [Lexeme.endOffset, hoffset, List.length_append, List.length_append, hplace]
      obtain ⟨u, v, hsplit, hplaces⟩ := ih hfinish hend m hm
      exact ⟨u, v, by rw [← hsplit]; simp only [List.append_assoc], hplaces⟩

end Scanner

/-- Every lexeme of a text starts and ends at the line and the column of its offsets. -/
theorem Lexeme.isAt_of_scan {source : Text} {ls : List Lexeme} (h : scan source = .ok ls) :
    ∀ l ∈ ls, l.start.IsAt source l.offset ∧ l.finish.IsAt source l.endOffset := by
  intro l hl
  obtain ⟨u, v, hsplit, hoffset, hstart⟩ :=
    (Scanner.scan_iff.1 h).splits (p := []) rfl l hl
  rw [List.nil_append] at hsplit
  have hfinish : l.finish = Position.start.advance (u ++ l.text) := by
    rw [Position.advance_append, ← hstart]
    rfl
  have hend : l.endOffset = (u ++ l.text).length := by
    rw [Lexeme.endOffset, hoffset, List.length_append]
  constructor
  · rw [hsplit, hoffset, hstart]
    exact Position.isAt_advance u (l.text ++ v)
  · rw [hsplit, hend, hfinish, ← List.append_assoc]
    exact Position.isAt_advance (u ++ l.text) v

theorem Lexeme.isAt_of_scan_two_lines :
    ∃ ls, scan "/* a\n */ b\n + `c\n` ;" = .ok ls ∧
      ls.map (fun l => (l.start, l.finish)) =
        [(⟨2, 5⟩, ⟨2, 6⟩), (⟨3, 2⟩, ⟨3, 3⟩), (⟨3, 4⟩, ⟨4, 2⟩), (⟨4, 3⟩, ⟨4, 4⟩)] ∧
      ∀ l ∈ ls, l.start.IsAt "/* a\n */ b\n + `c\n` ;" l.offset ∧
        l.finish.IsAt "/* a\n */ b\n + `c\n` ;" l.endOffset := by
  have hplaces : (scan "/* a\n */ b\n + `c\n` ;").map (List.map fun l => (l.start, l.finish)) =
      .ok [(⟨2, 5⟩, ⟨2, 6⟩), (⟨3, 2⟩, ⟨3, 3⟩), (⟨3, 4⟩, ⟨4, 2⟩), (⟨4, 3⟩, ⟨4, 4⟩)] := by
    decide +kernel
  obtain ⟨ls, hscan, hplaces⟩ := exists_of_map_scan hplaces
  exact ⟨ls, hscan, hplaces, isAt_of_scan hscan⟩

/-! ## The places of faults -/

namespace Scanner

/-- What cannot be read at the start of a text: a comment that is not closed, or a lexeme. -/
inductive Fails (regex : Bool) : Text → FaultAt → Prop where
  | comment {t : Text} : commentBody? t = none →
      Fails regex ("/*" ++ t) ⟨.unterminatedComment, 0⟩
  | lexeme {c : CodePoint} {rest : Text} {f : FaultAt} : cut regex c rest = .error f →
      Fails regex (c :: rest) f

/-- A fault shows at the start of a text, or the text is a template and it is that of a string in
it, at whose quote it shows. -/
def ShowsIn (t : Text) (f : FaultAt) : Prop :=
  f.distance = 0 ∨ (∃ c ∈ t.head?, c.val = 0x60) ∧ f.fault = .unterminatedString ∧
    ∃ q, t[f.distance]? = some q ∧ (q = '\'' ∨ q = '"')

section

variable {t w : Text} {frame : Frame} {outer : List Frame} {f : FaultAt} {n : Nat} {regex : Bool}

theorem drop_cons {c : CodePoint} {rest : Text} (h : t.drop n = c :: rest) :
    t[n]? = some c ∧ t.drop (n + 1) = rest := by
  constructor
  · rw [← List.head?_drop, h]
    rfl
  · rw [← List.drop_drop, h]
    rfl

/-- If the faults of the frames that are open show in a template, so does the one that ends it. -/
theorem showsIn_of_closeFrames (h : closeFrames frame outer n w = .error f)
    (ht : ∃ c ∈ t.head?, c.val = 0x60) (hw : t.drop n = w)
    (hframes : ∀ fr ∈ frame :: outer, ShowsIn t fr.fault) : ShowsIn t f := by
  -- The induction is on the text: it ends in a frame, or a frame is closed, opened or gone on with.
  -- Only a string that is opened brings in a fault with a distance, and it is that of its quote.
  fun_induction closeFrames frame outer n w
  case case1 | case2 | case6 | case19 | case20 =>
    cases h
    exact hframes _ List.mem_cons_self
  case case4 | case13 | case17 => cases h
  case case5 ih | case14 ih | case18 ih =>
    exact ih h (drop_cons hw).2 (List.forall_mem_cons.1 hframes).2
  case case10 hquote ih =>
    obtain ⟨hget, hrest⟩ := drop_cons hw
    refine ih h hrest (List.forall_mem_cons.2 ⟨.inr ⟨ht, rfl, _, hget, ?_⟩, hframes⟩)
    simpa using hquote
  case case3 ih | case21 ih => exact ih h (drop_cons (drop_cons hw).2).2 hframes
  case case7 ih =>
    exact ih h (drop_cons (drop_cons hw).2).2 (List.forall_mem_cons.2 ⟨.inl rfl, hframes⟩)
  case case11 ih => exact ih h (drop_cons hw).2 (List.forall_mem_cons.2 ⟨.inl rfl, hframes⟩)
  case case12 ih | case15 ih =>
    exact ih h (drop_cons hw).2
      (List.forall_mem_cons.2 ⟨.inl rfl, (List.forall_mem_cons.1 hframes).2⟩)
  case case8 ih | case9 ih | case16 ih | case22 ih => exact ih h (drop_cons hw).2 hframes

theorem showsIn_of_fails (h : Fails regex t f) : ShowsIn t f := by
  cases h with
  | comment => exact .inl rfl
  | @lexeme c rest f hcut =>
    unfold cut at hcut
    split at hcut
    · split at hcut <;> cases hcut
      exact .inl rfl
    split at hcut
    · rename_i hback
      cases hframes : closeFrames .template [] 1 rest with
      | ok n =>
        rw [hframes] at hcut
        cases hcut
      | error f =>
        rw [hframes] at hcut
        cases hcut
        refine showsIn_of_closeFrames hframes ⟨c, rfl, hback⟩ rfl fun fr hfr => ?_
        rw [List.mem_singleton.1 hfr]
        exact .inl rfl
    split at hcut
    · split at hcut <;> cases hcut
      exact .inl rfl
    split at hcut
    · split at hcut <;> cases hcut
      exact .inl rfl
    split at hcut
    · cases hcut
    split at hcut <;> cases hcut
    exact .inl rfl

/-- A gap stops at a comment. -/
theorem exists_fails_of_gap {atStart : Bool} (h : gap atStart n t = .error f) (regex : Bool) :
    ∃ w u, t = w ++ u ∧ f.distance = w.length ∧ Fails regex u ⟨f.fault, 0⟩ := by
  induction n generalizing t atStart f with
  | zero => cases h
  | succ n ih =>
    rw [gap] at h
    split at h
    · rename_i f' hpiece
      cases h
      unfold gapPiece? at hpiece
      dsimp only at hpiece
      split at hpiece
      · cases hpiece
      split at hpiece
      · cases hpiece
      split at hpiece
      · cases hpiece
      split at hpiece
      · rename_i hopen
        obtain ⟨u, rfl⟩ := (startsWith_pair (p := '/') (q := '*')).1 hopen
        split at hpiece <;> cases hpiece
        exact ⟨[], _, rfl, rfl, .comment ‹_›⟩
      · cases hpiece
    · cases h
    · rename_i piece hpiece
      split at h
      · rename_i f' hrest
        cases h
        obtain ⟨w, u, hsplit, hdistance, hfails⟩ := ih hrest
        refine ⟨t.take piece.length ++ w, u, ?_, ?_, hfails⟩
        · rw [List.append_assoc, ← hsplit, List.take_append_drop]
        · rw [FaultAt.shift, hdistance, List.length_append,
            List.length_take_of_le (gapPiece_length hpiece).2, Nat.add_comm]
      · cases h

theorem exists_fails_of_lexemes {offset : Nat} {position : Position} {previous : Option Lexeme}
    {stop : Stop} (h : lexemes n offset position previous t = .error stop) :
    ∃ w u regex f, t = w ++ u ∧ Fails regex u f ∧
      stop = ⟨f.fault, (position.advance w).onLine f.distance⟩ := by
  induction n generalizing offset position previous t with
  | zero => cases h
  | succ n ih =>
    unfold lexemes at h
    split at h
    · rename_i f hgap
      cases h
      obtain ⟨w, u, rfl, hdistance, hfails⟩ := exists_fails_of_gap hgap true
      refine ⟨w, u, true, _, rfl, hfails, ?_⟩
      rw [hdistance, List.take_left]
      rfl
    · rename_i g hgap
      have hle := gap_length hgap
      dsimp only at h
      split at h
      · cases h
      · rename_i c rest hdrop
        have hsplit : t = t.take g.length ++ (c :: rest) := by rw [← hdrop, List.take_append_drop]
        split at h
        · rename_i f hcut
          cases h
          exact ⟨_, _, _, _, hsplit, .lexeme hcut, rfl⟩
        · rename_i found hcut
          generalize hlexeme : (⟨found.kind, (c :: rest).take found.length, offset + g.length,
            position.advance (t.take g.length), g.lineBreak⟩ : Lexeme) = l at h
          cases hrest : lexemes n l.endOffset l.finish (some l)
              ((c :: rest).drop found.length) with
          | ok ls =>
            rw [hrest] at h
            cases h
          | error stop' =>
            rw [hrest] at h
            cases h
            obtain ⟨w, u, regex, f, hu, hfails, rfl⟩ := ih hrest
            have hfinish : l.finish =
                position.advance (t.take g.length ++ (c :: rest).take found.length) := by
              rw [← hlexeme, Lexeme.finish, Position.advance_append]
            refine ⟨t.take g.length ++ ((c :: rest).take found.length ++ w), u, regex, f, ?_,
              hfails, ?_⟩
            · rw [List.append_assoc, List.append_assoc, ← hu, List.take_append_drop, ← hsplit]
            · rw [← List.append_assoc, Position.advance_append, ← hfinish]

end

end Scanner

/-- A scan that stops tells the distance of the fault on the line of what cannot be read. The
distance is none but for a string inside a template. There it leads to the quote if no line ends
between the start of the template and the quote, and else it leads nowhere. -/
theorem Lexeme.stop_of_scan {source : Text} {stop : Scanner.Stop} (h : scan source = .error stop) :
    ∃ (w u : Text) (regex : Bool) (f : FaultAt) (p : Position), source = w ++ u ∧
      Scanner.Fails regex u f ∧ stop.fault = f.fault ∧ p.IsAt source w.length ∧
      stop.position = p.onLine f.distance ∧ Scanner.ShowsIn u f ∧
      ∀ o, stop.position.IsAt source o ↔ o = w.length + f.distance ∧
        CodePoint.ofChar '\n' ∉ source.slice w.length (w.length + f.distance) := by
  obtain ⟨w, u, regex, f, rfl, hfails, rfl⟩ := Scanner.exists_fails_of_lexemes h
  have hplace := Position.isAt_advance w u
  have hinside := Scanner.showsIn_of_fails hfails
  have hfits : f.distance ≤ u.length := by
    rcases hinside with hzero | ⟨-, -, q, hq, -⟩
    · omega
    · obtain ⟨hlt, -⟩ := List.getElem?_eq_some_iff.1 hq
      exact hlt.le
  refine ⟨w, u, regex, f, _, rfl, hfails, rfl, hplace, rfl, hinside, ?_⟩
  exact fun o => hplace.onLine_iff (by rw [List.length_append]; omega)

/-- The quote is at the third column of the second line. -/
example : (Lexeme.scan "x = `a\n$\x7b'b\x7d`;").map List.length =
    .error ⟨.unterminatedString, ⟨1, 10⟩⟩ := by
  decide +kernel

end ModuleLowering
