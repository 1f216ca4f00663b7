import ModuleLowering.Proofs.Scanning

/-!
# Scanning a text again

A text that goes on in another way behind a gap or a lexeme is scanned as before up to there.
-/

set_option autoImplicit false

namespace ModuleLowering

namespace Scanner

/-! ## Pieces of gaps -/

section

variable {w a t : Text} {n : Nat}

theorem commentBody_eq_some (h : commentBody? t = some n) :
    ∃ v rest, t = v ++ rest ∧ v.length = n + 2 ∧ ∀ u, commentBody? (v ++ u) = some n := by
  fun_induction commentBody? t generalizing n with
  | case1 => cases h
  | case2 c rest hclose =>
    cases h
    rw [Bool.and_eq_true, decide_eq_true_eq, decide_eq_true_eq] at hclose
    obtain ⟨u, rfl⟩ := List.head?_eq_some_iff.1 hclose.2
    obtain ⟨rfl, -⟩ := hclose
    exact ⟨['*', '/'], u, rfl, rfl, fun u => by simp [commentBody?]⟩
  | case3 c rest hclose ih =>
    obtain ⟨m, hm, rfl⟩ := Option.map_eq_some_iff.1 h
    obtain ⟨v, u, rfl, hv, hbody⟩ := ih hm
    refine ⟨c :: v, u, rfl, by rw [List.length_cons, hv], fun u' => ?_⟩
    have hhead : (v ++ u').head? = (v ++ u).head? := by
      cases v with
      | nil => cases hv
      | cons d v => rfl
    rw [List.cons_append, commentBody?, hhead, if_neg hclose, hbody u', Option.map_some]

/-- What comes behind a gap does not go on with it: it starts with no white space. -/
def NoSpace (t : Text) : Prop := ∀ c ∈ t.head?, isSpace c = false

theorem takeWhile_isSpace_append (ha : NoSpace a) :
    (w ++ a).takeWhile isSpace = w.takeWhile isSpace := by
  have hnone : a.takeWhile isSpace = [] := by
    cases a with
    | nil => rfl
    | cons c a => exact List.takeWhile_cons_of_neg (by simp [ha c rfl])
  rw [List.takeWhile_append]
  split
  · rename_i hall
    rw [hnone, List.append_nil, (List.takeWhile_sublist isSpace).eq_of_length hall]
  · rfl

/-- How far a line goes does not depend on what comes behind it. -/
theorem restOfLine_append {b : Text} (h : restOfLine (w ++ a) ≤ w.length) (ha : NoSpace a)
    (hb : a = [] → ∀ c ∈ b.head?, c = '\n') : restOfLine (w ++ b) = restOfLine (w ++ a) := by
  unfold restOfLine at h ⊢
  rw [List.takeWhile_append] at h ⊢
  rw [List.takeWhile_append]
  split
  · rename_i hall
    rw [if_pos hall, List.length_append] at h
    have hnone : a.takeWhile (fun (c : CodePoint) => c ≠ '\n') = [] :=
      List.length_eq_zero_iff.1 (by omega)
    have hnil : a = [] := by
      cases a with
      | nil => rfl
      | cons c a =>
        have hc : c = '\n' := by
          by_contra hc
          rw [List.takeWhile_cons_of_pos (by simpa using hc)] at hnone
          cases hnone
        have hspace := ha c rfl
        rw [hc] at hspace
        cases hspace
    have hnone' : b.takeWhile (fun (c : CodePoint) => c ≠ '\n') = [] := by
      cases b with
      | nil => rfl
      | cons c b => exact List.takeWhile_cons_of_neg (by simp [hb hnil c rfl])
    rw [hnone, hnone']
  · rfl

/-- The two code points that open a piece of a gap through the end of the line. -/
def opensLine (atStart : Bool) (c d : CodePoint) : Bool :=
  (atStart && (c = '#' && d = '!')) || (c = '/' && d = '/')

section

variable {atStart : Bool} {piece : Gap} {c d : CodePoint}

theorem startsWith_pair {p q : CodePoint} : Text.startsWith t [p, q] = true ↔
    ∃ u, t = p :: q :: u := by
  unfold Text.startsWith
  rw [List.isPrefixOf_iff_prefix]
  exact ⟨fun ⟨u, hu⟩ => ⟨u, hu.symm⟩, fun ⟨u, hu⟩ => ⟨u, hu.symm⟩⟩

theorem gapPiece_cases (h : gapPiece? atStart t = .ok (some piece)) :
    (t.takeWhile isSpace ≠ [] ∧
      piece = ⟨(t.takeWhile isSpace).length, (t.takeWhile isSpace).any isLineBreak⟩) ∨
    (∃ c d u, t = c :: d :: u ∧ opensLine atStart c d = true ∧ piece = ⟨restOfLine t, false⟩) ∨
    ∃ u n, t = CodePoint.ofChar '/' :: CodePoint.ofChar '*' :: u ∧ commentBody? u = some n ∧
      piece = ⟨n + 4, (u.take n).any (· = '\n')⟩ := by
  unfold gapPiece? at h
  dsimp only at h
  split at h
  · rename_i hrun
    cases h
    exact .inl ⟨by simpa using hrun, rfl⟩
  split at h
  · rename_i hhash
    cases h
    rw [Bool.and_eq_true] at hhash
    obtain ⟨u, rfl⟩ := (startsWith_pair (p := '#') (q := '!')).1 hhash.2
    exact .inr (.inl ⟨_, _, u, rfl, by simp [opensLine, hhash.1], rfl⟩)
  split at h
  · rename_i hslash
    cases h
    obtain ⟨u, rfl⟩ := (startsWith_pair (p := '/') (q := '/')).1 hslash
    exact .inr (.inl ⟨_, _, u, rfl, by simp [opensLine], rfl⟩)
  split at h
  · rename_i hstar
    obtain ⟨u, rfl⟩ := (startsWith_pair (p := '/') (q := '*')).1 hstar
    split at h
    · cases h
    · rename_i n hn
      cases h
      exact .inr (.inr ⟨u, n, rfl, hn, rfl⟩)
  · cases h

theorem gapPiece_space (atStart : Bool) (h : t.takeWhile isSpace ≠ []) : gapPiece? atStart t =
    .ok (some ⟨(t.takeWhile isSpace).length, (t.takeWhile isSpace).any isLineBreak⟩) := by
  unfold gapPiece?
  dsimp only
  rw [if_pos (by simpa using h)]

theorem opensLine_not_space (h : opensLine atStart c d = true) :
    isSpace c = false ∧ c ≠ '\n' ∧ d ≠ '\n' := by
  simp only [opensLine, Bool.or_eq_true, Bool.and_eq_true, decide_eq_true_eq] at h
  rcases h with ⟨-, rfl, rfl⟩ | ⟨rfl, rfl⟩
  · decide
  · decide

theorem gapPiece_line (h : opensLine atStart c d = true) :
    gapPiece? atStart (c :: d :: t) = .ok (some ⟨restOfLine (c :: d :: t), false⟩) := by
  have hspace : (c :: d :: t).takeWhile isSpace = [] :=
    List.takeWhile_cons_of_neg (by simp [(opensLine_not_space h).1])
  unfold gapPiece?
  dsimp only
  rw [hspace, if_neg (by simp)]
  simp only [opensLine, Bool.or_eq_true, Bool.and_eq_true, decide_eq_true_eq] at h
  rcases h with ⟨hstart, rfl, rfl⟩ | ⟨rfl, rfl⟩
  · rw [if_pos (by rw [hstart]; rfl)]
  · rw [if_neg (by simp [Text.startsWith, Text.ofString, CodePoint.ofChar_inj]), if_pos (by rfl)]

theorem gapPiece_block (h : commentBody? t = some n) :
    gapPiece? atStart (CodePoint.ofChar '/' :: CodePoint.ofChar '*' :: t) =
      .ok (some ⟨n + 4, (t.take n).any (· = '\n')⟩) := by
  have hspace : (CodePoint.ofChar '/' :: CodePoint.ofChar '*' :: t).takeWhile isSpace = [] := rfl
  unfold gapPiece?
  dsimp only
  rw [hspace, if_neg (by simp), if_neg (by simp [Text.startsWith, Text.ofString, CodePoint.ofChar_inj]),
    if_neg (by simp [Text.startsWith, Text.ofString, CodePoint.ofChar_inj]), if_pos (by rfl)]
  simp only [List.drop_succ_cons, List.drop_zero, h]

theorem gapPiece_pos (h : gapPiece? atStart t = .ok (some piece)) :
    0 < piece.length ∧ (t.takeWhile isSpace = [] → 2 ≤ piece.length) := by
  rcases gapPiece_cases h with ⟨hrun, rfl⟩ | ⟨c, d, u, rfl, hopen, rfl⟩ | ⟨u, n, rfl, -, rfl⟩
  · exact ⟨List.length_pos_iff.2 hrun, fun h => absurd h hrun⟩
  · obtain ⟨-, hc, hd⟩ := opensLine_not_space hopen
    have hlong : 2 ≤ restOfLine (c :: d :: u) := by
      unfold restOfLine
      rw [List.takeWhile_cons_of_pos (by simpa using hc), List.takeWhile_cons_of_pos (by simpa using hd)]
      exact Nat.le_add_left _ _
    exact ⟨Nat.lt_of_lt_of_le Nat.two_pos hlong, fun _ => hlong⟩
  · exact ⟨Nat.succ_pos _, fun _ => Nat.le_add_left 2 (n + 2)⟩

/-- A piece of a gap stays as it is where the text behind it goes on in another way. -/
theorem gapPiece_append {b : Text} (h : gapPiece? atStart (w ++ a) = .ok (some piece))
    (hlen : piece.length ≤ w.length) (ha : NoSpace a) (hb : a = [] → ∀ c ∈ b.head?, c = '\n')
    (hspace : w.takeWhile isSpace = w → NoSpace b) :
    gapPiece? atStart (w ++ b) = .ok (some piece) := by
  have hrun : (w ++ b).takeWhile isSpace = w.takeWhile isSpace := by
    by_cases hall : w.takeWhile isSpace = w
    · exact takeWhile_isSpace_append (hspace hall)
    · rw [List.takeWhile_append, if_neg]
      exact fun hlength => hall ((List.takeWhile_sublist isSpace).eq_of_length hlength)
  by_cases hne : w.takeWhile isSpace = []
  · have htwo : 2 ≤ w.length := by
      have hpos := (gapPiece_pos h).2 (by rw [takeWhile_isSpace_append ha, hne])
      exact Nat.le_trans hpos hlen
    match w, htwo with
    | x :: y :: w, _ =>
      rcases gapPiece_cases h with ⟨hne', -⟩ | ⟨c, d, u, hw, hopen, rfl⟩ | ⟨u, n, hw, hbody, rfl⟩
      · rw [takeWhile_isSpace_append ha] at hne'
        exact absurd hne hne'
      · simp only [List.cons_append, List.cons.injEq] at hw
        obtain ⟨rfl, rfl, rfl⟩ := hw
        rw [← restOfLine_append hlen ha hb]
        exact gapPiece_line hopen
      · simp only [List.cons_append, List.cons.injEq] at hw
        obtain ⟨rfl, rfl, rfl⟩ := hw
        obtain ⟨v, rest, hsplit, hv, hstay⟩ := commentBody_eq_some hbody
        have hfits : n + 4 ≤ w.length + 2 := hlen
        obtain ⟨w', rfl, rfl⟩ := split_of_le hsplit (by omega)
        have htake : ∀ u : Text, (v ++ w' ++ u).take n = v.take n := fun u => by
          rw [List.append_assoc, List.take_append_of_le_length (by omega)]
        rw [htake a, ← htake b]
        have hbody' : commentBody? (v ++ w' ++ b) = some n := by rw [List.append_assoc, hstay]
        exact gapPiece_block hbody'
  · rcases gapPiece_cases h with ⟨-, rfl⟩ | ⟨c, d, u, hw, hopen, -⟩ | ⟨u, n, hw, -⟩
    · rw [takeWhile_isSpace_append ha, ← hrun]
      exact gapPiece_space _ (by rwa [hrun])
    · rw [← takeWhile_isSpace_append ha, hw, List.takeWhile_cons_of_neg
        (by simp [(opensLine_not_space hopen).1])] at hne
      exact absurd rfl hne
    · rw [← takeWhile_isSpace_append ha, hw] at hne
      exact absurd rfl hne

theorem gapPiece_length (h : gapPiece? atStart t = .ok (some piece)) :
    0 < piece.length ∧ piece.length ≤ t.length := by
  refine ⟨(gapPiece_pos h).1, ?_⟩
  rcases gapPiece_cases h with ⟨-, rfl⟩ | ⟨c, d, u, rfl, -, rfl⟩ | ⟨u, n, rfl, hbody, rfl⟩
  · exact (List.takeWhile_sublist isSpace).length_le
  · exact (List.takeWhile_sublist _).length_le
  · obtain ⟨v, rest, rfl, hv, -⟩ := commentBody_eq_some hbody
    simp only [List.length_cons, List.length_append, hv]
    omega

/-! ## Gaps -/

variable {m k : Nat} {g : Gap}

theorem gap_succ_ok : gap atStart (n + 1) t = .ok g ↔
    (gapPiece? atStart t = .ok none ∧ g = ⟨0, false⟩) ∨
    ∃ piece next, gapPiece? atStart t = .ok (some piece) ∧
      gap false n (t.drop piece.length) = .ok next ∧ g = next.after piece.length piece.lineBreak := by
  rw [gap]
  cases hpiece : gapPiece? atStart t with
  | error f => simp
  | ok found =>
    cases found with
    | none => simp [eq_comm]
    | some piece =>
      cases hnext : gap false n (t.drop piece.length) with
      | error f => simp [hnext]
      | ok next => simp [hnext, eq_comm]

theorem gapPiece_eq_none : gapPiece? atStart t = .ok none ↔
    t.takeWhile isSpace = [] ∧ (atStart && Text.startsWith t "#!") = false ∧
      Text.startsWith t "//" = false ∧ Text.startsWith t "/*" = false := by
  unfold gapPiece?
  dsimp only
  cases hspace : t.takeWhile isSpace with
  | cons c u => simp
  | nil =>
    cases (atStart && Text.startsWith t "#!") <;> cases Text.startsWith t "//" <;>
      cases Text.startsWith t "/*" <;> cases commentBody? (t.drop 2) <;> simp

theorem startsWith_pair_broken {b : Text} {p q : CodePoint} (hb : AtBreak b)
    (hq : isBreak q = false) (h : Text.startsWith (c :: (w ++ a)) [p, q] = false) :
    Text.startsWith (c :: (w ++ b)) [p, q] = false := by
  rw [Bool.eq_false_iff] at h ⊢
  intro hbroken
  obtain ⟨u, hu⟩ := startsWith_pair.1 hbroken
  cases w with
  | nil =>
    obtain ⟨-, rfl⟩ : c = p ∧ b = q :: u := by simpa using hu
    exact Bool.false_ne_true (hq.symm.trans (hb q rfl))
  | cons d w =>
    obtain ⟨rfl, rfl, -⟩ : c = p ∧ d = q ∧ w ++ b = u := by simpa using hu
    exact h (startsWith_pair.2 ⟨w ++ a, rfl⟩)

/-- Where no piece of a gap starts, none starts with the text broken off. -/
theorem gapPiece_none_broken {b : Text} (hb : AtBreak b)
    (h : gapPiece? atStart (c :: (w ++ a)) = .ok none) :
    gapPiece? atStart (c :: (w ++ b)) = .ok none := by
  obtain ⟨hspace, hhash, hslash, hstar⟩ := gapPiece_eq_none.1 h
  refine gapPiece_eq_none.2 ⟨?_, ?_, startsWith_pair_broken hb (by decide) hslash,
    startsWith_pair_broken hb (by decide) hstar⟩
  · cases hc : isSpace c with
    | false => exact List.takeWhile_cons_of_neg (by simp [hc])
    | true =>
      rw [List.takeWhile_cons_of_pos hc] at hspace
      cases hspace
  · cases atStart with
    | false => rfl
    | true => exact startsWith_pair_broken hb (by decide) hhash

/-- More fuel than code points makes no difference. -/
theorem gap_fuel (hm : t.length < m) (hk : t.length < k) : gap atStart m t = gap atStart k t := by
  induction m generalizing t k atStart with
  | zero => exact absurd hm (Nat.not_lt_zero _)
  | succ m ih =>
    obtain ⟨k, rfl⟩ := Nat.exists_eq_add_of_le' (Nat.lt_of_le_of_lt (Nat.zero_le _) hk)
    rw [gap, gap]
    cases hpiece : gapPiece? atStart t with
    | error f => rfl
    | ok found =>
      cases found with
      | none => rfl
      | some piece =>
        obtain ⟨hpos, hle⟩ := gapPiece_length hpiece
        have hrest : (t.drop piece.length).length = t.length - piece.length := List.length_drop
        dsimp only
        rw [ih (k := k) (by omega) (by omega)]

theorem gap_length (h : gap atStart n t = .ok g) : g.length ≤ t.length := by
  induction n generalizing t g atStart with
  | zero =>
    cases h
    exact Nat.zero_le _
  | succ n ih =>
    rcases gap_succ_ok.1 h with ⟨-, rfl⟩ | ⟨piece, next, hpiece, hnext, rfl⟩
    · exact Nat.zero_le _
    · have hle := ih hnext
      have hpiece := gapPiece_length hpiece
      rw [List.length_drop] at hle
      simp only [Gap.after]
      omega

theorem noSpace_of_gapPiece (h : gapPiece? atStart t = .ok none) : NoSpace t := by
  intro c hc
  obtain ⟨u, rfl⟩ := List.head?_eq_some_iff.1 hc
  by_contra hspace
  have hnone := (gapPiece_eq_none.1 h).1
  rw [List.takeWhile_cons_of_pos (by simpa using hspace)] at hnone
  cases hnone

/-- A gap ends where no white space is. -/
theorem noSpace_drop_gap (h : gap atStart n t = .ok g) (hn : t.length < n) :
    NoSpace (t.drop g.length) := by
  induction n generalizing t g atStart with
  | zero => exact absurd hn (Nat.not_lt_zero _)
  | succ n ih =>
    rcases gap_succ_ok.1 h with ⟨hnone, rfl⟩ | ⟨piece, next, hpiece, hnext, rfl⟩
    · exact noSpace_of_gapPiece hnone
    · obtain ⟨hpos, hle⟩ := gapPiece_length hpiece
      have hrest := ih hnext (by rw [List.length_drop]; omega)
      rwa [List.drop_drop] at hrest

/-- A gap stays as it is where the text behind it goes on in another way. -/
theorem gap_append {b : Text} {lineBreak : Bool} (h : gap atStart n (w ++ a) = .ok ⟨w.length, lineBreak⟩)
    (ha : NoSpace a) (hb : NoSpace b) (hend : a = [] → b = [])
    (hstop : ∀ atStart, gapPiece? atStart a = .ok none → gapPiece? atStart b = .ok none) :
    gap atStart n (w ++ b) = .ok ⟨w.length, lineBreak⟩ := by
  induction n generalizing w atStart lineBreak with
  | zero => exact h
  | succ n ih =>
    rcases gap_succ_ok.1 h with ⟨hnone, hg⟩ | ⟨piece, next, hpiece, hnext, hg⟩
    · obtain ⟨hlen, rfl⟩ := Gap.mk.inj hg
      obtain rfl := List.length_eq_zero_iff.1 hlen
      exact gap_succ_ok.2 (.inl ⟨hstop _ hnone, rfl⟩)
    · obtain ⟨hlen, hbreak⟩ := Gap.mk.inj hg
      have hfits : piece.length ≤ w.length := by omega
      rw [List.drop_append_of_le_length hfits] at hnext
      have hrest : next = ⟨(w.drop piece.length).length, next.lineBreak⟩ := by
        rw [List.length_drop, hlen, Nat.add_sub_cancel_left]
      rw [hrest] at hnext
      refine gap_succ_ok.2 (.inr ⟨piece, next, ?_, ?_, hg⟩)
      · exact gapPiece_append hpiece hfits ha (fun h => by simp [hend h]) fun _ => hb
      · rw [List.drop_append_of_le_length hfits, ih hnext, ← hrest]

/-- White space in front of a gap belongs to the gap. -/
theorem gap_spaces (hw : ∀ c ∈ w, isSpace c = true) (h : gap false n t = .ok g) (hn : t.length < n)
    (hm : (w ++ t).length < m) (hne : w ≠ []) :
    gap atStart m (w ++ t) = .ok (g.after w.length (w.any isLineBreak)) := by
  obtain ⟨m, rfl⟩ := Nat.exists_eq_add_of_le' (Nat.lt_of_le_of_lt (Nat.zero_le _) hm)
  obtain ⟨n, rfl⟩ := Nat.exists_eq_add_of_le' (Nat.lt_of_le_of_lt (Nat.zero_le _) hn)
  have hrun : (w ++ t).takeWhile isSpace = w ++ t.takeWhile isSpace :=
    List.takeWhile_append_of_pos hw
  have hpiece := gapPiece_space (t := w ++ t) atStart
    (by rw [hrun]; exact List.append_ne_nil_of_left_ne_nil hne _)
  have hpos := List.length_pos_iff.2 hne
  rw [List.length_append] at hm
  by_cases hnone : t.takeWhile isSpace = []
  · refine gap_succ_ok.2 (.inr ⟨_, g, hpiece, ?_, ?_⟩)
    · rw [hrun, hnone, List.append_nil, List.drop_left]
      exact (gap_fuel (by omega) hn).trans h
    · rw [hrun, hnone, List.append_nil]
  · have hspaces := gapPiece_space false hnone
    rcases gap_succ_ok.1 h with ⟨hstop, -⟩ | ⟨piece, next, hfirst, hnext, rfl⟩
    · cases hspaces.symm.trans hstop
    · cases hspaces.symm.trans hfirst
      refine gap_succ_ok.2 (.inr ⟨_, next, hpiece, ?_, ?_⟩)
      · have hlong := List.length_pos_iff.2 hnone
        have hshort := (List.takeWhile_sublist (l := t) isSpace).length_le
        simp only [hrun, List.length_append, List.drop_length_add_append]
        refine (gap_fuel ?_ ?_).trans hnext
        all_goals
          rw [List.length_drop]
          omega
      · rw [hrun]
        simp [Gap.after, Nat.add_assoc, Bool.or_assoc]

end

end

/-! ## One lexeme -/

/-- The lexeme at the start of a text. -/
def firstCut? (regex : Bool) : Text → Option Cut
  | [] => none
  | c :: rest => (cut regex c rest).toOption

/-- A text starts with a gap `g` and a lexeme `v`. -/
structure Starts (atStart regex : Bool) (g : Text) (lineBreak : Bool) (kind : LexemeKind)
    (v rest : Text) : Prop where
  space : ∀ {n : Nat}, (g ++ (v ++ rest)).length < n →
    gap atStart n (g ++ (v ++ rest)) = .ok ⟨g.length, lineBreak⟩
  lexeme : firstCut? regex (v ++ rest) = some ⟨kind, v.length⟩

/-- The second text is the first one, or it is broken off behind a lexeme. -/
def Breaks (t t' : Text) : Prop :=
  t' = t ∨ ∃ w a x b, isBreak x = true ∧ t = w ++ a ∧ t' = w ++ x :: b ∧
    (w = [CodePoint.ofChar '.'] → startsNumeral (CodePoint.ofChar '.' :: a) = false)

section

variable {atStart regex lineBreak : Bool} {g v rest rest' : Text} {kind : LexemeKind}

theorem firstCut_eq_some {t : Text} {found : Cut} (h : firstCut? regex t = some found) :
    ∃ c rest, t = c :: rest ∧ cut regex c rest = .ok found := by
  cases t with
  | nil => cases h
  | cons c rest =>
    refine ⟨c, rest, rfl, ?_⟩
    simp only [firstCut?] at h
    cases hcut : cut regex c rest with
    | error fault =>
      rw [hcut] at h
      cases h
    | ok found' =>
      rw [hcut] at h
      exact congrArg _ (Option.some.inj h)

theorem firstCut_of_cut {c : CodePoint} {found : Cut} (h : cut regex c rest = .ok found) :
    firstCut? regex (c :: rest) = some found := by
  rw [firstCut?, h]
  rfl

namespace Starts

/-- A lexeme is not empty. -/
theorem exists_cons (h : Starts atStart regex g lineBreak kind v rest) :
    ∃ c u, v = c :: u ∧ cut regex c (u ++ rest) = .ok ⟨kind, u.length + 1⟩ := by
  obtain ⟨c, t, ht, hcut⟩ := firstCut_eq_some h.lexeme
  cases v with
  | nil => exact absurd (cut_length hcut).1 (Nat.lt_irrefl 0)
  | cons d u =>
    obtain ⟨rfl, rfl⟩ := List.cons_eq_cons.1 ht
    exact ⟨d, u, rfl, hcut⟩

theorem breaks (h : Starts atStart regex g lineBreak kind v rest) (hrest : Breaks rest rest') :
    Starts atStart regex g lineBreak kind v rest' := by
  rcases hrest with rfl | ⟨w, a, x, b, hx, rfl, rfl, hpoint⟩
  · exact h
  obtain ⟨c, u, rfl, hcut⟩ := h.exists_cons
  constructor
  · intro n hn
    have hspace := h.space (Nat.lt_succ_self _)
    have hends := noSpace_drop_gap hspace (Nat.lt_succ_self _)
    rw [List.drop_left] at hends
    have hmuch : gap atStart ((g ++ (c :: u ++ (w ++ a))).length + 1 + n) _ = _ :=
      h.space (by omega)
    have hstays := gap_append (b := c :: u ++ (w ++ x :: b)) hmuch hends (fun d hd => hends d hd)
      nofun fun atStart hnone => ?_
    · rw [← hstays]
      exact gap_fuel hn (by omega)
    · rw [List.cons_append, ← List.append_assoc] at hnone ⊢
      exact gapPiece_none_broken (atBreak_cons hx b) hnone
  · have hbroken := cut_broken (w := u ++ w) (a := a) (atBreak_cons hx b) (by rwa [List.append_assoc])
      (by simp) fun hone hlen => ?_
    · rw [List.append_assoc] at hbroken
      exact firstCut_of_cut hbroken
    · rw [List.length_eq_zero_iff.1 (Nat.succ_injective hlen : u.length = 0)] at hone
      exact hpoint hone

theorem breaks_text (h : Starts atStart regex g lineBreak kind v rest) (hrest : Breaks rest rest') :
    Breaks (g ++ (v ++ rest)) (g ++ (v ++ rest')) := by
  rcases hrest with rfl | ⟨w, a, x, b, hx, rfl, rfl, hpoint⟩
  · exact .inl rfl
  obtain ⟨c, u, rfl, hcut⟩ := h.exists_cons
  refine .inr ⟨g ++ (c :: u ++ w), a, x, b, hx, by simp, by simp, fun hone => ?_⟩
  obtain ⟨hg, hone⟩ : g = [] ∧ c :: u ++ w = [CodePoint.ofChar '.'] := by
    cases g with
    | nil => exact ⟨rfl, hone⟩
    | cons d g =>
      have hlen := congrArg List.length hone
      simp at hlen
  simp only [List.cons_append, List.cons.injEq, List.append_eq_nil_iff] at hone
  obtain ⟨rfl, rfl, rfl⟩ := hone
  exact startsNumeral_point hcut (Nat.le_refl _)

/-- Whether a slash would start a regular expression matters to slashes alone. -/
theorem withRegex (h : Starts atStart regex g lineBreak kind v rest)
    (hslash : kind ≠ .punctuator .slash) (hassign : kind ≠ .punctuator .slashAssign)
    {regex' : Bool} (hregex : kind = .regex → regex' = true) :
    Starts atStart regex' g lineBreak kind v rest where
  space := h.space
  lexeme := by
    obtain ⟨c, u, rfl, hcut⟩ := h.exists_cons
    rw [List.cons_append]
    refine firstCut_of_cut ?_
    by_cases hc : c = '/'
    · subst hc
      cases regex with
      | false => rcases cut_slash hcut with hkind | hkind <;> contradiction
      | true => rwa [hregex (cut_slash_regex hcut)]
    · exact (cut_regex hc regex').symm.trans hcut

/-- A semicolon is a lexeme wherever it stands. -/
theorem semicolon :
    Starts atStart regex [] false (.punctuator .semicolon) [CodePoint.ofChar ';'] rest where
  space {n} hn := by
    obtain ⟨n, rfl⟩ := Nat.exists_eq_add_of_le' (Nat.lt_of_le_of_lt (Nat.zero_le _) hn)
    refine gap_succ_ok.2 (.inl ⟨gapPiece_eq_none.2 ⟨rfl, ?_, rfl, rfl⟩, rfl⟩)
    cases atStart <;> rfl
  lexeme := firstCut_of_cut cut_semicolon

end Starts

end

/-! ## Whole texts -/

/-- What is left of a text has these lexemes; `offset` and `position` tell where it begins, and
`regex` whether a slash there starts a regular expression. -/
inductive Scans : Nat → Position → Bool → Text → List Lexeme → Prop where
  | done {offset : Nat} {position : Position} {regex lineBreak : Bool} {t : Text} :
      (∀ {n : Nat}, t.length < n → gap (offset = 0) n t = .ok ⟨t.length, lineBreak⟩) →
      Scans offset position regex t []
  | cons {offset : Nat} {position : Position} {regex : Bool} {g rest : Text} {l : Lexeme}
      {ls : List Lexeme} :
      Starts (offset = 0) regex g l.lineBreakBefore l.kind l.text rest →
      l.offset = offset + g.length → l.start = position.advance g →
      Scans l.endOffset l.finish l.precedesRegex rest ls →
      Scans offset position regex (g ++ (l.text ++ rest)) (l :: ls)

/-- Whether a slash after a lexeme, if there is one, starts a regular expression. -/
def regexAfter (previous : Option Lexeme) : Bool := (previous.map Lexeme.precedesRegex).getD true

section

variable {n offset : Nat} {position : Position} {previous : Option Lexeme} {t : Text}
  {ls : List Lexeme}

theorem scans_of_lexemes (h : lexemes n offset position previous t = .ok ls) (hn : t.length < n) :
    Scans offset position (regexAfter previous) t ls := by
  induction n generalizing offset position previous t ls with
  | zero => exact absurd hn (Nat.not_lt_zero _)
  | succ n ih =>
    unfold lexemes at h
    split at h
    · cases h
    rename_i g hgap
    have hspace : ∀ {m : Nat}, t.length < m → gap (offset = 0) m t = .ok g :=
      fun hm => (gap_fuel hm (Nat.lt_succ_self _)).trans hgap
    have hle := gap_length hgap
    dsimp only at h
    split at h
    · rename_i hdrop
      cases h
      have hall : g = ⟨t.length, g.lineBreak⟩ := by
        rw [List.drop_eq_nil_iff] at hdrop
        rw [Nat.le_antisymm hdrop hle]
      rw [hall] at hspace
      exact .done hspace
    · rename_i c rest hdrop
      split at h
      · cases h
      rename_i found hcut
      obtain ⟨hpos, hfits⟩ := cut_length hcut
      generalize hlexeme : (⟨found.kind, (c :: rest).take found.length, offset + g.length,
        position.advance (t.take g.length), g.lineBreak⟩ : Lexeme) = l at h
      cases hrest : lexemes n l.endOffset l.finish (some l) ((c :: rest).drop found.length) with
      | error stop =>
        rw [hrest] at h
        cases h
      | ok ls' =>
        rw [hrest] at h
        cases h
        have htext : l.text = (c :: rest).take found.length := by rw [← hlexeme]
        have hsplit : t.take g.length ++ (l.text ++ (c :: rest).drop found.length) = t := by
          rw [htext, List.take_append_drop, ← hdrop, List.take_append_drop]
        have htake : (t.take g.length).length = g.length := List.length_take_of_le hle
        have hlength : l.text.length = found.length := by
          rw [htext]
          exact List.length_take_of_le hfits
        have hscans := ih hrest (by
          have hshort := congrArg List.length hdrop
          simp only [List.length_drop, List.length_cons] at hshort ⊢
          omega)
        have hstarts : Starts (offset = 0) (regexAfter previous) (t.take g.length)
            l.lineBreakBefore l.kind l.text ((c :: rest).drop found.length) := by
          constructor
          · rw [hsplit, htake, ← hlexeme]
            exact hspace
          · rw [hlength, htext, List.take_append_drop, ← hlexeme]
            exact firstCut_of_cut hcut
        have hwhole : Scans offset position _ _ _ :=
          .cons hstarts (by rw [htake, ← hlexeme]) (by rw [← hlexeme]) hscans
        rwa [hsplit] at hwhole

theorem lexemes_of_scans {regex : Bool} (h : Scans offset position regex t ls)
    (hregex : regexAfter previous = regex) (hn : t.length < n) :
    lexemes n offset position previous t = .ok ls := by
  induction h generalizing n previous with
  | done hspace =>
    obtain ⟨n, rfl⟩ := Nat.exists_eq_add_of_le' (Nat.lt_of_le_of_lt (Nat.zero_le _) hn)
    simp only [lexemes, hspace (Nat.lt_succ_self _), List.drop_length]
  | @cons offset position regex g rest l ls hstarts hoffset hstart _ ih =>
    obtain ⟨n, rfl⟩ := Nat.exists_eq_add_of_le' (Nat.lt_of_le_of_lt (Nat.zero_le _) hn)
    obtain ⟨c, u, hu, hcut⟩ := hstarts.exists_cons
    have hrest : lexemes n l.endOffset l.finish (some l) rest = .ok ls := ih rfl (by
      rw [hu] at hn
      simp only [List.length_append, List.length_cons] at hn
      omega)
    have hlexeme : (⟨l.kind, (c :: (u ++ rest)).take (u.length + 1), offset + g.length,
        position.advance g, l.lineBreakBefore⟩ : Lexeme) = l := by
      rw [← hoffset, ← hstart, List.take_succ_cons, List.take_left, ← hu]
    simp only [lexemes, hstarts.space (Nat.lt_succ_self _), List.drop_left, List.take_left]
    rw [hu, List.cons_append]
    dsimp only
    rw [show (previous.map Lexeme.precedesRegex).getD true = regex from hregex, hcut]
    dsimp only
    rw [hlexeme, List.drop_succ_cons, List.drop_left, hrest]
    rfl

theorem scan_iff {source : Text} : Lexeme.scan source = .ok ls ↔ Scans 0 .start true source ls :=
  ⟨fun h => scans_of_lexemes h (Nat.lt_succ_self _),
    fun h => lexemes_of_scans h rfl (Nat.lt_succ_self _)⟩

end

end Scanner

/-- What is told of a scan that succeeds is told of its lexemes. -/
theorem Lexeme.exists_of_map_scan {α : Type} {source : Text} {f : List Lexeme → α} {a : α}
    (h : (scan source).map f = .ok a) : ∃ ls, scan source = .ok ls ∧ f ls = a := by
  cases hscan : scan source with
  | error stop =>
    rw [hscan] at h
    cases h
  | ok ls =>
    rw [hscan] at h
    exact ⟨ls, rfl, Except.ok.inj h⟩

end ModuleLowering
