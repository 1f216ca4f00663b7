import ModuleLowering.Token.Scanner
import Mathlib.Data.List.TakeWhile
import Mathlib.Tactic.SplitIfs

/-!
# What the length of a lexeme depends on

The reading of a lexeme looks little further than the lexeme: a semicolon, a line feed and a blank
end whatever has an open length. So a text may be broken off by one of them behind any lexeme, or
end there, and the lexemes up to there stay as they are. The same is said of gaps.
-/

set_option autoImplicit false

namespace ModuleLowering.Scanner

/-- The code points that end every lexeme of open length. -/
def isBreak (c : CodePoint) : Bool := c = ';' || c = '\n' || c = ' '

/-- A text at its end or at a break. -/
def AtBreak (t : Text) : Prop := ∀ c ∈ t.head?, isBreak c = true

theorem atBreak_cons {c : CodePoint} (hc : isBreak c = true) (t : Text) : AtBreak (c :: t) := by
  intro d hd
  rwa [← Option.some.inj hd]

theorem atBreak_nil : AtBreak [] := nofun

/-- A class of code points that has no break. -/
def Unbroken (p : CodePoint → Bool) : Prop := ∀ c, isBreak c = true → p c = false

theorem unbroken_iff {p : CodePoint → Bool} :
    Unbroken p ↔ p (';' : Char) = false ∧ p ('\n' : Char) = false ∧ p (' ' : Char) = false := by
  simp only [Unbroken, isBreak, Bool.or_eq_true, decide_eq_true_eq]
  exact ⟨fun h => ⟨h _ (.inl (.inl rfl)), h _ (.inl (.inr rfl)), h _ (.inr rfl)⟩,
    fun ⟨hsemicolon, hline, hblank⟩ c hc => by rcases hc with (rfl | rfl) | rfl <;> assumption⟩

/-! ## Lengths -/

theorem takeWhile_atBreak {p : CodePoint → Bool} {t : Text} (hp : Unbroken p) (ht : AtBreak t) :
    t.takeWhile p = [] := by
  cases t with
  | nil => rfl
  | cons c t => exact List.takeWhile_cons_of_neg (by simp [hp c (ht c rfl)])

/-- How much of a text is taken, where a break ends what is taken and nothing behind the end
counts. -/
structure Measures (length : Text → Nat) : Prop where
  le : ∀ t, length t ≤ t.length
  broken : ∀ {w a b : Text}, AtBreak b → length (w ++ a) ≤ w.length →
    length (w ++ b) = length (w ++ a)

/-- One code point of a kind, and what is taken behind it. -/
def oneThen (p : CodePoint → Bool) (f : Text → Nat) : Text → Nat
  | [] => 0
  | c :: rest => if p c then f rest + 1 else 0

/-- One code point of a kind, if something is taken behind it. -/
def oneBefore (p : CodePoint → Bool) (f : Text → Nat) : Text → Nat
  | [] => 0
  | c :: rest => if p c = true ∧ f rest ≠ 0 then f rest + 1 else 0

/-- What is taken in one way, or else in another way. -/
def orElse (f g : Text → Nat) (t : Text) : Nat := if f t = 0 then g t else f t

/-- What is taken first, if anything, and what is taken behind it. -/
def andThen (f g : Text → Nat) (t : Text) : Nat := if f t = 0 then 0 else f t + g (t.drop (f t))

namespace Measures

variable {f g : Text → Nat} {p : CodePoint → Bool}

theorem zero : Measures fun _ => 0 := ⟨fun _ => Nat.zero_le _, fun _ _ => rfl⟩

theorem takeWhile (hp : Unbroken p) : Measures fun t => (t.takeWhile p).length where
  le t := (List.takeWhile_sublist p).length_le
  broken {w a b} hb hlen := by
    have hstop : b.takeWhile p = [] := takeWhile_atBreak hp hb
    rw [List.takeWhile_append] at hlen ⊢
    rw [List.takeWhile_append]
    split
    · rename_i hall
      rw [if_pos hall, List.length_append] at hlen
      have hnothing : a.takeWhile p = [] := List.length_eq_zero_iff.1 (by omega)
      rw [hstop, hnothing]
    · rfl

theorem oneThen (hp : Unbroken p) (hf : Measures f) : Measures (oneThen p f) where
  le t := by
    cases t with
    | nil => exact Nat.le_refl _
    | cons c rest =>
      have hle := hf.le rest
      simp only [Scanner.oneThen, List.length_cons]
      split <;> omega
  broken {w a b} hb hlen := by
    cases w with
    | nil =>
      rw [Nat.le_zero.1 hlen]
      cases b with
      | nil => rfl
      | cons c b => simp [Scanner.oneThen, hp c (hb c rfl)]
    | cons d w =>
      simp only [List.cons_append, Scanner.oneThen, List.length_cons] at hlen ⊢
      split
      · rw [if_pos ‹_›] at hlen
        rw [hf.broken (a := a) hb (by omega)]
      · rfl

theorem oneBefore (hp : Unbroken p) (hf : Measures f) : Measures (oneBefore p f) where
  le t := by
    cases t with
    | nil => exact Nat.le_refl _
    | cons c rest =>
      have hle := hf.le rest
      simp only [Scanner.oneBefore, List.length_cons]
      split <;> omega
  broken {w a b} hb hlen := by
    cases w with
    | nil =>
      rw [Nat.le_zero.1 hlen]
      cases b with
      | nil => rfl
      | cons c b => simp [Scanner.oneBefore, hp c (hb c rfl)]
    | cons d w =>
      simp only [List.cons_append, Scanner.oneBefore, List.length_cons] at hlen ⊢
      by_cases hd : p d = true
      · have hfits : f (w ++ a) ≤ w.length := by
          by_cases hzero : f (w ++ a) = 0
          · omega
          · rw [if_pos ⟨hd, hzero⟩] at hlen
            omega
        rw [hf.broken hb hfits]
      · simp [hd]

theorem orElse (hf : Measures f) (hg : Measures g) : Measures (orElse f g) where
  le t := by
    unfold Scanner.orElse
    split
    · exact hg.le t
    · exact hf.le t
  broken {w a b} hb hlen := by
    unfold Scanner.orElse at hlen ⊢
    have hfirst : f (w ++ b) = f (w ++ a) := by
      refine hf.broken hb ?_
      split at hlen <;> omega
    rw [hfirst]
    split
    · rw [if_pos ‹_›] at hlen
      exact hg.broken hb hlen
    · rfl

theorem andThen (hf : Measures f) (hg : Measures g) : Measures (andThen f g) where
  le t := by
    have hfirst := hf.le t
    have hsecond := hg.le (t.drop (f t))
    rw [List.length_drop] at hsecond
    unfold Scanner.andThen
    split <;> omega
  broken {w a b} hb hlen := by
    unfold Scanner.andThen at hlen ⊢
    have hfits : f (w ++ a) ≤ w.length := by
      split at hlen <;> omega
    rw [hf.broken hb hfits]
    split
    · rfl
    · rw [if_neg ‹_›, List.drop_append_of_le_length hfits] at hlen
      rw [List.drop_append_of_le_length hfits, List.drop_append_of_le_length hfits,
        hg.broken (a := a) hb (by rw [List.length_drop]; omega)]

end Measures

/-! ## Numerals -/

theorem digitRun_eq :
    digitRun = oneThen CodePoint.isDecimal fun t => (t.takeWhile isDigitPart).length := by
  funext t
  cases t with
  | nil => rfl
  | cons c rest => simp only [digitRun, oneThen, Nat.add_comm]

theorem measures_digitRun : Measures digitRun := by
  rw [digitRun_eq]
  exact .oneThen (unbroken_iff.2 (by decide)) (.takeWhile (unbroken_iff.2 (by decide)))

theorem digitRun_eq_zero {c : CodePoint} (hc : c.isDecimal = false) (rest : Text) :
    digitRun (c :: rest) = 0 := by
  simp [digitRun, hc]

theorem exponentLength_eq :
    exponentLength = oneBefore (fun c => c = 'e' || c = 'E')
      (orElse digitRun (oneBefore (fun c => c = '+' || c = '-') digitRun)) := by
  funext t
  cases t with
  | nil => rfl
  | cons c rest =>
    cases rest with
    | nil => simp [exponentLength, oneBefore, orElse, digitRun]
    | cons d more =>
      simp only [exponentLength, oneBefore, orElse]
      by_cases hd : (d = '+' || d = '-') = true
      · have hnone : digitRun (d :: more) = 0 := by
          refine digitRun_eq_zero ?_ more
          rcases (by simpa using hd : d = '+' ∨ d = '-') with rfl | rfl <;> decide
        simp only [hd, if_true, hnone, List.drop_one, List.tail_cons, true_and]
        cases digitRun more <;> simp
      · rw [Bool.not_eq_true] at hd
        simp only [hd, false_and, Bool.false_eq_true, if_false, List.drop_zero]
        cases digitRun (d :: more) <;> simp

theorem measures_exponentLength : Measures exponentLength := by
  rw [exponentLength_eq]
  exact .oneBefore (unbroken_iff.2 (by decide))
    (.orElse measures_digitRun (.oneBefore (unbroken_iff.2 (by decide)) measures_digitRun))

/-- A point with the digits behind it. -/
def fraction : Text → Nat := oneThen (fun c => c = '.') fun t => (t.takeWhile isDigitPart).length

theorem mantissaLength_eq :
    mantissaLength = orElse (andThen digitRun fraction) (oneBefore (fun c => c = '.') digitRun) := by
  funext t
  unfold mantissaLength orElse andThen
  split
  · rename_i hzero
    simp only [hzero, if_true]
    cases t with
    | nil => rfl
    | cons c rest =>
      simp only [List.head?_cons, Option.some.injEq, List.drop_one, List.tail_cons, oneBefore]
      by_cases hc : c = '.'
      · simp only [hc, decide_true, if_true, true_and]
        cases digitRun rest <;> simp
      · simp [hc]
  · rename_i n hn
    have hsome : digitRun t ≠ 0 := hn
    simp only [hsome, if_false, Nat.add_eq_zero_iff, false_and]
    cases hrest : t.drop (digitRun t) with
    | nil => simp [fraction, oneThen]
    | cons c rest =>
      have hdrop : t.drop (digitRun t + 1) = rest := by
        rw [← List.drop_drop, hrest, List.drop_one, List.tail_cons]
      simp only [List.head?_cons, Option.some.injEq, hdrop, fraction, oneThen, decide_eq_true_eq]
      split <;> omega

theorem measures_mantissaLength : Measures mantissaLength := by
  have hpoint : Unbroken fun c => c = '.' := unbroken_iff.2 (by decide)
  have hfraction : Measures fraction := .oneThen hpoint (.takeWhile (unbroken_iff.2 (by decide)))
  rw [mantissaLength_eq]
  exact .orElse (.andThen measures_digitRun hfraction) (.oneBefore hpoint measures_digitRun)

/-- The digits of the base that a mark announces. -/
def based (isMark isPart : CodePoint → Bool) : Text → Nat :=
  oneBefore isMark fun t => (t.takeWhile isPart).length

def hexPart (c : CodePoint) : Bool := c.isHexDigit || c = '_'

def octalPart (c : CodePoint) : Bool := (0x30 ≤ c.val && c.val ≤ 0x37) || c = '_'

def binaryPart (c : CodePoint) : Bool := c = '0' || c = '1' || c = '_'

/-- The digits of any base, behind the zero of a prefix. -/
def marked : Text → Nat :=
  orElse (based (fun c => c = 'x' || c = 'X') hexPart)
    (orElse (based (fun c => c = 'o' || c = 'O') octalPart)
      (based (fun c => c = 'b' || c = 'B') binaryPart))

theorem prefixedRun_eq (zero mark : CodePoint) (rest : Text) (isPart : CodePoint → Bool) :
    prefixedRun (zero :: mark :: rest) isPart =
      if (rest.takeWhile isPart).length = 0 then 0 else (rest.takeWhile isPart).length + 2 := by
  unfold prefixedRun
  rw [List.drop_succ_cons, List.drop_succ_cons, List.drop_zero]
  cases (rest.takeWhile isPart).length <;> rfl

theorem prefixedLength_eq : prefixedLength = oneBefore (fun c => c = '0') marked := by
  funext t
  match t with
  | [] => rfl
  | [c] => simp [prefixedLength, oneBefore, marked, orElse, based]
  | zero :: mark :: rest =>
    show (if zero ≠ '0' then 0
      else if (mark = 'x' || mark = 'X') = true then prefixedRun (zero :: mark :: rest) hexPart
      else if (mark = 'o' || mark = 'O') = true then prefixedRun (zero :: mark :: rest) octalPart
      else if (mark = 'b' || mark = 'B') = true then prefixedRun (zero :: mark :: rest) binaryPart
      else 0) = _
    simp only [oneBefore, marked, orElse, based, prefixedRun_eq]
    generalize (rest.takeWhile hexPart).length = hex
    generalize (rest.takeWhile octalPart).length = octal
    generalize (rest.takeWhile binaryPart).length = binary
    by_cases hzero : zero ≠ '0'
    · simp [hzero]
    rw [not_ne_iff] at hzero
    by_cases hx : (mark = 'x' || mark = 'X') = true
    · have ho : (mark = 'o' || mark = 'O') = false := by
        rcases (by simpa using hx : mark = 'x' ∨ mark = 'X') with rfl | rfl <;> decide
      have hb : (mark = 'b' || mark = 'B') = false := by
        rcases (by simpa using hx : mark = 'x' ∨ mark = 'X') with rfl | rfl <;> decide
      cases hex <;> simp [hzero, hx, ho, hb]
    by_cases ho : (mark = 'o' || mark = 'O') = true
    · have hb : (mark = 'b' || mark = 'B') = false := by
        rcases (by simpa using ho : mark = 'o' ∨ mark = 'O') with rfl | rfl <;> decide
      cases octal <;> simp [hzero, hx, ho, hb]
    by_cases hb : (mark = 'b' || mark = 'B') = true
    · cases binary <;> simp [hzero, hx, ho, hb]
    · simp [hzero, hx, ho, hb]

theorem measures_prefixedLength : Measures prefixedLength := by
  have hbased : ∀ {isMark isPart}, Unbroken isMark → Unbroken isPart →
      Measures (based isMark isPart) := fun hmark hpart => .oneBefore hmark (.takeWhile hpart)
  rw [prefixedLength_eq]
  refine .oneBefore (unbroken_iff.2 (by decide)) (.orElse (hbased ?_ ?_) (.orElse (hbased ?_ ?_)
    (hbased ?_ ?_)))
  all_goals exact unbroken_iff.2 (by decide)

/-- A numeral without the mark of a big integer. -/
def plainNumeral : Text → Nat :=
  orElse prefixedLength (andThen mantissaLength exponentLength)

theorem numeralLength_eq :
    numeralLength = andThen plainNumeral (oneThen (fun c => c = 'n') fun _ => 0) := by
  funext t
  have hplain : numeralLength t =
      if plainNumeral t = 0 then 0
      else if (t.drop (plainNumeral t)).head? = some ('n' : CodePoint) then plainNumeral t + 1
      else plainNumeral t := by
    unfold numeralLength plainNumeral orElse andThen
    cases prefixedLength t with
    | zero => cases mantissaLength t <;> simp
    | succ n => simp
  rw [hplain, andThen]
  cases t.drop (plainNumeral t) with
  | nil => simp [oneThen]
  | cons c rest =>
    simp only [List.head?_cons, Option.some.injEq, oneThen, decide_eq_true_eq]
    split_ifs <;> rfl

theorem measures_numeralLength : Measures numeralLength := by
  rw [numeralLength_eq]
  exact .andThen (.orElse measures_prefixedLength
    (.andThen measures_mantissaLength measures_exponentLength))
    (.oneThen (unbroken_iff.2 (by decide)) .zero)

/-- A numeral with a point at its start has a digit behind the point. -/
theorem numeralLength_point_ne_one (rest : Text) :
    numeralLength (CodePoint.ofChar '.' :: rest) ≠ 1 := by
  have hprefixed : prefixedLength (CodePoint.ofChar '.' :: rest) = 0 := by
    rw [prefixedLength_eq]
    simp [oneBefore, CodePoint.ofChar_inj]
  have hrun : digitRun (CodePoint.ofChar '.' :: rest) = 0 := digitRun_eq_zero (by decide) rest
  have hmantissa : mantissaLength (CodePoint.ofChar '.' :: rest) ≠ 1 := by
    rw [mantissaLength_eq]
    simp only [orElse, andThen, hrun, oneBefore, decide_true, true_and, if_true]
    split <;> omega
  rw [numeralLength_eq]
  simp only [andThen, plainNumeral, orElse, hprefixed, if_true]
  split_ifs <;> omega

/-! ## Lexemes between marks -/

section

variable {t : Text} {quote : CodePoint} {n m : Nat}

/-- A string is closed by what it takes, whatever comes behind it. -/
theorem closeString_eq_some (h : closeString? quote t = some n) :
    ∃ v rest, t = v ++ rest ∧ v.length = n ∧ ∀ u, closeString? quote (v ++ u) = some n := by
  fun_induction closeString? quote t generalizing n with
  | case1 => cases h
  | case2 rest =>
    cases h
    exact ⟨[quote], rest, rfl, rfl, fun u => by unfold closeString?; simp⟩
  | case3 => cases h
  | case4 => cases h
  | case5 d more hquote hline ih =>
    obtain ⟨m, hm, rfl⟩ := Option.map_eq_some_iff.1 h
    obtain ⟨v, rest, rfl, rfl, hv⟩ := ih hm
    exact ⟨_ :: d :: v, rest, rfl, rfl, fun u => by simp [closeString?, hquote, hline, hv]⟩
  | case6 c rest hquote hline hslash ih =>
    obtain ⟨m, hm, rfl⟩ := Option.map_eq_some_iff.1 h
    obtain ⟨v, rest, rfl, rfl, hv⟩ := ih hm
    refine ⟨c :: v, rest, rfl, rfl, fun u => ?_⟩
    unfold closeString?
    simp [hquote, hline, hslash, hv]

/-- No code point of a word stands at the start of a text. -/
def NoWord (u : Text) : Prop := ∀ c ∈ u.head?, c.isWord = false

theorem noWord_dropWhile (t : Text) : NoWord (t.dropWhile CodePoint.isWord) := by
  intro c hc
  have hnot := List.head?_dropWhile_not CodePoint.isWord t
  rw [hc] at hnot
  exact hnot

theorem regexFlags_append (t : Text) {u : Text} (hu : NoWord u) :
    regexFlags (t.takeWhile CodePoint.isWord ++ u) = (t.takeWhile CodePoint.isWord).length := by
  have hnone : u.takeWhile CodePoint.isWord = [] := by
    cases u with
    | nil => rfl
    | cons c u => exact List.takeWhile_cons_of_neg (by simp [hu c rfl])
  rw [regexFlags, List.takeWhile_append_of_pos fun c => List.mem_takeWhile_imp, hnone, List.append_nil]

theorem closeRegex_eq_some {inClass : Bool} (h : closeRegex? inClass t = some n) :
    ∃ v rest, t = v ++ rest ∧ v.length = n ∧ NoWord rest ∧
      ∀ u, NoWord u → closeRegex? inClass (v ++ u) = some n := by
  fun_induction closeRegex? inClass t generalizing n with
  | case1 => cases h
  | case2 => cases h
  | case3 => cases h
  | case4 b d more hline ih =>
    obtain ⟨m, hm, rfl⟩ := Option.map_eq_some_iff.1 h
    obtain ⟨v, rest, rfl, rfl, hrest, hv⟩ := ih hm
    exact ⟨_ :: d :: v, rest, rfl, rfl, hrest, fun u hu => by simp [closeRegex?, hline, hv u hu]⟩
  | case5 b c rest hline hslash hclose =>
    cases h
    refine ⟨c :: rest.takeWhile CodePoint.isWord, rest.dropWhile CodePoint.isWord, ?_, ?_,
      noWord_dropWhile rest, fun u hu => ?_⟩
    · rw [List.cons_append, List.takeWhile_append_dropWhile]
    · rw [List.length_cons, Nat.add_comm]
      rfl
    · have hflags := regexFlags_append rest hu
      rw [List.cons_append, closeRegex?.eq_def]
      simp only [hline, hslash, hclose, if_false, if_true]
      rw [hflags]
      rfl
  | case6 =>
    rename_i b c rest hline hslash hclose inClass ih
    obtain ⟨m, hm, rfl⟩ := Option.map_eq_some_iff.1 h
    obtain ⟨v, rest, rfl, rfl, hrest, hv⟩ := ih hm
    refine ⟨c :: v, rest, rfl, rfl, hrest, fun u hu => ?_⟩
    rw [List.cons_append, closeRegex?.eq_def]
    simp only [hline, hslash, hclose, if_false]
    rw [hv u hu]
    rfl

/-- The frames at `n` are closed at `m`, whatever comes behind. -/
def Closes (frame : Frame) (outer : List Frame) (n m : Nat) (t : Text) : Prop :=
  ∃ v rest, t = v ++ rest ∧ n + v.length = m ∧ v ≠ [] ∧
    ∀ u, closeFrames frame outer n (v ++ u) = .ok m

namespace Closes

variable {frame frame' : Frame} {outer outer' : List Frame} {c d : CodePoint}

theorem last (h : ∀ u, closeFrames frame outer n (c :: u) = .ok (n + 1)) :
    Closes frame outer n (n + 1) (c :: t) := ⟨[c], t, rfl, rfl, nofun, h⟩

theorem step (h : Closes frame' outer' (n + 1) m t)
    (hstep : ∀ u, u.head? = t.head? →
      closeFrames frame outer n (c :: u) = closeFrames frame' outer' (n + 1) u) :
    Closes frame outer n m (c :: t) := by
  obtain ⟨v, rest, rfl, rfl, hv, hclose⟩ := h
  obtain ⟨d, v, rfl⟩ := List.exists_cons_of_ne_nil hv
  refine ⟨c :: d :: v, rest, rfl, ?_, nofun, fun u => ?_⟩
  · simp only [List.length_cons]
    omega
  · rw [← hclose u]
    exact hstep _ rfl

theorem skip (h : Closes frame' outer' (n + 2) m t)
    (hskip : ∀ u, closeFrames frame outer n (c :: d :: u) = closeFrames frame' outer' (n + 2) u) :
    Closes frame outer n m (c :: d :: t) := by
  obtain ⟨v, rest, rfl, rfl, hv, hclose⟩ := h
  refine ⟨c :: d :: v, rest, rfl, ?_, nofun, fun u => ?_⟩
  · simp only [List.length_cons]
    omega
  · rw [← hclose u]
    exact hskip _

end Closes

theorem closes_of_closeFrames {frame : Frame} {outer : List Frame}
    (h : closeFrames frame outer n t = .ok m) : Closes frame outer n m t := by
  fun_induction closeFrames frame outer n t generalizing m
  case case1 | case2 | case6 | case19 | case20 => all_goals cases h
  case case4 | case13 | case17 =>
    all_goals
      cases h
      refine .last fun u => ?_
      rw [closeFrames.eq_def]
      simp_all
  case case3 | case7 | case21 =>
    all_goals
      refine .skip (by solve_by_elim) fun u => ?_
      rw [closeFrames.eq_def]
      simp_all
  case case8 ih =>
    refine .step (ih h) fun u hu => ?_
    obtain ⟨u, rfl⟩ := List.head?_eq_some_iff.1 hu
    rw [closeFrames.eq_def]
    simp_all
  case case15 hdepth ih =>
    refine .step (ih h) fun u _ => ?_
    rw [closeFrames.eq_def]
    simp [*]
  all_goals
    refine .step (by solve_by_elim) fun u _ => ?_
    rw [closeFrames.eq_def]
    simp_all

end

/-! ## Lexemes -/

theorem split_of_le {v rest w a : Text} (h : w ++ a = v ++ rest) (hle : v.length ≤ w.length) :
    ∃ w', w = v ++ w' ∧ rest = w' ++ a := by
  rcases List.append_eq_append_iff.1 h with ⟨u, rfl, rfl⟩ | ⟨u, rfl, rfl⟩
  · rw [List.length_append] at hle
    have hu : u = [] := List.length_eq_zero_iff.1 (by omega)
    subst hu
    exact ⟨[], by simp, by simp⟩
  · exact ⟨u, rfl, rfl⟩

section

variable {regex : Bool} {c : CodePoint} {w a b : Text} {found : Cut} {n : Nat} (hb : AtBreak b)
include hb

theorem noWord_broken {w' : Text} (h : NoWord (w' ++ a)) : NoWord (w' ++ b) := by
  cases w' with
  | nil =>
    intro c hc
    exact unbroken_iff.2 (by decide) c (hb c hc)
  | cons d w' => exact h

omit hb in
/-- Only at its start may a punctuator have a break. -/
theorem not_isBreak_of_mem_tail {x : CodePoint} (hx : isBreak x = true) (p : Punctuator)
    (h : x ∈ p.text.tail) : False := by
  have hnone : p.text.tail.any isBreak = false := by cases p <;> decide
  exact Bool.false_ne_true (hnone.symm.trans (List.any_eq_true.2 ⟨x, h, hx⟩))

theorem prefix_of_prefix_broken {p : Punctuator} (h : p.text <+: c :: w ++ b) :
    p.text <+: c :: w := by
  match b, hb with
  | [], _ => rwa [List.append_nil] at h
  | x :: b, hb =>
    have hbroken : (c :: w) ++ [x] <+: (c :: w) ++ x :: b := by
      rw [List.prefix_append_right_inj]
      exact ⟨b, rfl⟩
    have hmem : ∀ u, (c :: w) ++ [x] ++ u = p.text → False := by
      intro u hu
      refine not_isBreak_of_mem_tail (hb x rfl) p ?_
      rw [← hu]
      simp
    rcases List.prefix_or_prefix_of_prefix h hbroken with hp | ⟨u, hu⟩
    · rcases List.prefix_concat_iff.1 hp with hp | hp
      · exact (hmem [] (by rw [List.append_nil, hp])).elim
      · exact hp
    · exact (hmem u hu).elim

omit hb in
theorem prefix_of_longest {p : Punctuator} {t : Text} (h : Punctuator.longest? t = some p) :
    p.text <+: t := by
  have hfound := List.find?_some h
  exact List.isPrefixOf_iff_prefix.1 hfound

omit hb in
/-- A punctuator is the longest one if it is the only one. -/
theorem longest_of_unique {p : Punctuator} {t : Text} (hp : p.text <+: t)
    (hunique : ∀ q : Punctuator, q.text <+: t → q = p) : Punctuator.longest? t = some p := by
  have hsome : (Punctuator.longest? t).isSome = true :=
    List.find?_isSome.2 ⟨p, Punctuator.mem_all _, List.isPrefixOf_iff_prefix.2 hp⟩
  obtain ⟨q, hq⟩ := Option.isSome_iff_exists.1 hsome
  rw [hq, hunique q (prefix_of_longest hq)]

theorem longest_broken {p : Punctuator} (h : Punctuator.longest? (c :: (w ++ a)) = some p)
    (hlen : p.text.length ≤ w.length + 1) :
    Punctuator.longest? (c :: (w ++ b)) = some p := by
  obtain ⟨hp, before, behind, hall, hbefore⟩ := List.find?_eq_some_iff_append.1 h
  refine List.find?_eq_some_iff_append.2 ⟨?_, before, behind, hall, fun q hq => ?_⟩
  · rw [List.isPrefixOf_iff_prefix] at hp ⊢
    have hfits : p.text <+: c :: w :=
      List.prefix_of_prefix_length_le hp (List.prefix_append (c :: w) a) hlen
    exact hfits.trans (List.prefix_append (c :: w) b)
  · have hnot := hbefore q hq
    rw [Bool.not_eq_true', Bool.eq_false_iff, ne_eq, List.isPrefixOf_iff_prefix] at hnot ⊢
    intro hq'
    exact hnot ((prefix_of_prefix_broken hb hq').trans (List.prefix_append (c :: w) a))

theorem digit_atBreak : (b.head?.map CodePoint.isDigit).getD false = false := by
  cases b with
  | nil => rfl
  | cons x b =>
    have hdigit : Unbroken CodePoint.isDigit := unbroken_iff.2 (by decide)
    exact hdigit x (hb x rfl)

theorem longest_question : Punctuator.longest? (CodePoint.ofChar '?' :: b) = some .question := by
  refine longest_of_unique ⟨b, rfl⟩ fun q hq => ?_
  have hprefix : q.text <+: [CodePoint.ofChar '?'] := prefix_of_prefix_broken (w := []) hb hq
  rw [← List.isPrefixOf_iff_prefix] at hprefix
  revert hprefix
  cases q <;> decide

omit hb in
theorem punctuator_eq_self {p : Punctuator} {t : Text} (h : Punctuator.longest? t = some p)
    (hdigit : p = .optionalChain → ((t.drop 2).head?.map CodePoint.isDigit).getD false = false) :
    punctuator? t = some p := by
  rw [punctuator?, h, Option.map_some]
  refine congrArg some (if_neg ?_)
  rintro hboth
  rw [Bool.and_eq_true, decide_eq_true_eq] at hboth
  exact Bool.false_ne_true ((hdigit hboth.1).symm.trans hboth.2)

/-- A punctuator stays as it is, if no numeral with a point is broken off behind a question mark. -/
theorem punctuator_broken {p : Punctuator} (h : punctuator? (c :: (w ++ a)) = some p)
    (hlen : p.text.length ≤ w.length + 1)
    (hpoint : w = [CodePoint.ofChar '.'] → p.text.length = 1 →
      startsNumeral (CodePoint.ofChar '.' :: a) = false) :
    punctuator? (c :: (w ++ b)) = some p := by
  obtain ⟨q, hq, hp⟩ := Option.map_eq_some_iff.1 h
  by_cases hchain : q = .optionalChain
  · subst hchain
    obtain ⟨u, hu⟩ := prefix_of_longest hq
    rw [show Punctuator.optionalChain.text = [CodePoint.ofChar '?', CodePoint.ofChar '.'] from rfl,
      List.cons_append, List.cons_eq_cons] at hu
    obtain ⟨rfl, hu⟩ := hu
    by_cases hnumeral : ((((CodePoint.ofChar '?' :: (w ++ a)).drop 2).head?.map
        CodePoint.isDigit).getD false) = true
    · rw [if_pos (by simpa using hnumeral)] at hp
      subst hp
      match w, hu with
      | [], _ => exact punctuator_eq_self (longest_question hb) nofun
      | [d], hu =>
        obtain ⟨rfl, -⟩ := List.cons_eq_cons.1 hu
        have hstart := hpoint rfl rfl
        simp only [startsNumeral, decide_true, Bool.true_and, Bool.or_eq_false_iff] at hstart
        exact absurd hnumeral (Bool.eq_false_iff.1 hstart.2)
      | d :: e :: w, _ =>
        rw [punctuator?, longest_broken hb hq (Nat.le_add_left _ _), Option.map_some]
        exact congrArg some (if_pos (by simpa using hnumeral))
    · rw [if_neg (by simpa using hnumeral)] at hp
      subst hp
      match w, hu with
      | [], _ => exact absurd hlen (by decide)
      | [d], hu => exact punctuator_eq_self (longest_broken hb hq hlen) fun _ => digit_atBreak hb
      | d :: e :: w, _ =>
        exact punctuator_eq_self (longest_broken hb hq hlen) fun _ => by simpa using hnumeral
  · have hkeep : q = p := by
      rwa [if_neg (by simp [hchain])] at hp
    subst hkeep
    exact punctuator_eq_self (longest_broken hb hq hlen) fun h => absurd h hchain

theorem startsNumeral_broken
    (h : w = [] → c = '.' → startsNumeral (c :: a) = false) :
    startsNumeral (c :: (w ++ b)) = startsNumeral (c :: (w ++ a)) := by
  cases w with
  | nil =>
    by_cases hc : c = '.'
    · rw [List.nil_append, List.nil_append, h rfl hc]
      subst hc
      have hpoint : CodePoint.isDigit (CodePoint.ofChar '.') = false := by decide
      simp [startsNumeral, hpoint, digit_atBreak hb]
    · simp [startsNumeral, hc]
  | cons d w => rfl

omit hb in
/-- A point on its own starts no numeral. -/
theorem startsNumeral_point {rest : Text} (h : cut regex (CodePoint.ofChar '.') rest = .ok found)
    (hlen : found.length ≤ 1) : startsNumeral (CodePoint.ofChar '.' :: rest) = false := by
  by_contra hnumeral
  rw [Bool.not_eq_false] at hnumeral
  have hquote : (CodePoint.ofChar '.' = '\'' || CodePoint.ofChar '.' = '"') = false := by decide
  have hback : ¬(CodePoint.ofChar '.').val = 0x60 := by decide
  have hslash : (decide (CodePoint.ofChar '.' = '/') && regex) = false := by
    cases regex <;> decide
  simp only [cut, hquote, hback, hslash, hnumeral, Bool.false_eq_true, if_false, if_true] at h
  split at h
  · cases h
  · rename_i n hn
    cases h
    have hfits : numeralLength (CodePoint.ofChar '.' :: rest) ≤ 1 := hlen
    have hone : numeralLength (CodePoint.ofChar '.' :: rest) ≠ 1 := numeralLength_point_ne_one rest
    have hsome : numeralLength (CodePoint.ofChar '.' :: rest) ≠ 0 := hn
    omega

/-- A lexeme stays as it is where the text behind it is broken off, if no numeral with a point is
broken off behind a question mark. -/
theorem cut_broken (h : cut regex c (w ++ a) = .ok found) (hlen : found.length ≤ w.length + 1)
    (hpoint : w = [CodePoint.ofChar '.'] → found.length = 1 →
      startsNumeral (CodePoint.ofChar '.' :: a) = false) :
    cut regex c (w ++ b) = .ok found := by
  have hstart := startsNumeral_broken (c := c) (w := w) (a := a) hb fun hw hc => by
    subst hw hc
    exact startsNumeral_point h hlen
  unfold cut at h ⊢
  by_cases hquote : (c = '\'' || c = '"') = true
  · rw [if_pos hquote] at h ⊢
    split at h
    · cases h
    · rename_i n hn
      cases h
      obtain ⟨v, rest, hsplit, rfl, hclose⟩ := closeString_eq_some hn
      obtain ⟨w', rfl, -⟩ := split_of_le hsplit (Nat.le_of_succ_le_succ hlen)
      rw [List.append_assoc, hclose]
  rw [if_neg hquote] at h ⊢
  by_cases hback : c.val = 0x60
  · rw [if_pos hback] at h ⊢
    cases hn : closeFrames .template [] 1 (w ++ a) with
    | error fault =>
      rw [hn] at h
      cases h
    | ok n =>
      rw [hn] at h
      cases h
      obtain ⟨v, rest, hsplit, rfl, -, hclose⟩ := closes_of_closeFrames hn
      have hfits : 1 + v.length ≤ w.length + 1 := hlen
      obtain ⟨w', rfl, -⟩ := split_of_le hsplit (by omega)
      rw [List.append_assoc, hclose]
      rfl
  rw [if_neg hback] at h ⊢
  by_cases hregex : (c = '/' && regex) = true
  · rw [if_pos hregex] at h ⊢
    split at h
    · cases h
    · rename_i n hn
      cases h
      obtain ⟨v, rest, hsplit, rfl, hword, hclose⟩ := closeRegex_eq_some hn
      obtain ⟨w', rfl, rfl⟩ := split_of_le hsplit (Nat.le_of_succ_le_succ hlen)
      rw [List.append_assoc, hclose _ (noWord_broken hb hword)]
  rw [if_neg hregex] at h ⊢
  have hshort : numeralLength (c :: (w ++ a)) ≤ (c :: w).length → numeralLength (c :: (w ++ b)) =
      numeralLength (c :: (w ++ a)) := measures_numeralLength.broken (w := c :: w) hb
  rw [hstart]
  by_cases hnumeral : startsNumeral (c :: (w ++ a)) = true
  · rw [if_pos hnumeral] at h ⊢
    split at h
    · cases h
    · rename_i n hn
      cases h
      rw [hshort hlen]
      split
      · contradiction
      · rfl
  rw [if_neg hnumeral] at h ⊢
  by_cases hname : isNameStart c = true
  · rw [if_pos hname] at h ⊢
    cases h
    have hpart := (Measures.takeWhile (p := isNamePart) (unbroken_iff.2 (by decide))).broken
      (w := w) (a := a) hb (by simp only at hlen; omega)
    rw [hpart]
  rw [if_neg hname] at h ⊢
  split at h
  · rename_i p hp
    cases h
    rw [punctuator_broken hb hp hlen hpoint]
  · cases h

end

section

variable {regex : Bool} {c : CodePoint} {rest : Text} {found : Cut}

/-- A punctuator is read where it stands. -/
theorem prefix_of_punctuator {p : Punctuator} {t : Text} (h : punctuator? t = some p) :
    p.text <+: t := by
  obtain ⟨q, hq, rfl⟩ := Option.map_eq_some_iff.1 h
  have hprefix := prefix_of_longest hq
  split
  · rename_i hboth
    rw [Bool.and_eq_true, decide_eq_true_eq] at hboth
    have hquestion : Punctuator.question.text <+: Punctuator.optionalChain.text :=
      ⟨[CodePoint.ofChar '.'], rfl⟩
    rw [hboth.1] at hprefix
    exact hquestion.trans hprefix
  · exact hprefix

theorem text_ne_nil (p : Punctuator) : p.text ≠ [] := by cases p <;> decide

theorem head_of_prefix {p : Punctuator} (h : p.text <+: c :: rest) : p.text.head? = some c := by
  obtain ⟨u, hu⟩ := h
  cases htext : p.text with
  | nil => exact absurd htext (text_ne_nil p)
  | cons d v =>
    rw [htext] at hu
    exact congrArg some (List.cons_eq_cons.1 hu).1

theorem cut_length (h : cut regex c rest = .ok found) :
    0 < found.length ∧ found.length ≤ rest.length + 1 := by
  unfold cut at h
  split at h
  · split at h
    · cases h
    · rename_i n hn
      cases h
      obtain ⟨v, u, rfl, rfl, -⟩ := closeString_eq_some hn
      exact ⟨Nat.succ_pos _, by simp⟩
  split at h
  · cases hn : closeFrames .template [] 1 rest with
    | error fault =>
      rw [hn] at h
      cases h
    | ok n =>
      rw [hn] at h
      cases h
      obtain ⟨v, u, rfl, rfl, -, -⟩ := closes_of_closeFrames hn
      simp only [List.length_append]
      omega
  split at h
  · split at h
    · cases h
    · rename_i n hn
      cases h
      obtain ⟨v, u, rfl, rfl, -⟩ := closeRegex_eq_some hn
      exact ⟨Nat.succ_pos _, by simp⟩
  split at h
  · split at h
    · cases h
    · rename_i n hn
      cases h
      exact ⟨Nat.pos_of_ne_zero hn, measures_numeralLength.le (c :: rest)⟩
  split at h
  · cases h
    have hle := (List.takeWhile_sublist (l := rest) isNamePart).length_le
    simp only
    omega
  split at h
  · rename_i p hp
    cases h
    exact ⟨List.length_pos_iff.2 (text_ne_nil p), (prefix_of_punctuator hp).length_le⟩
  · cases h

/-- Whether regular expressions are allowed matters to a slash alone. -/
theorem cut_regex (hc : c ≠ '/') (regex' : Bool) : cut regex c rest = cut regex' c rest := by
  simp [cut, hc]

theorem cut_slash_regex (h : cut true (CodePoint.ofChar '/') rest = .ok found) :
    found.kind = .regex := by
  have hquote : (CodePoint.ofChar '/' = '\'' || CodePoint.ofChar '/' = '"') = false := by decide
  have hback : ¬(CodePoint.ofChar '/').val = 0x60 := by decide
  simp only [cut, hquote, hback, Bool.false_eq_true, if_false, decide_true, Bool.true_and,
    if_true] at h
  split at h
  · cases h
  · cases h
    rfl

/-- A semicolon is a lexeme of its own. -/
theorem cut_semicolon : cut regex (CodePoint.ofChar ';') rest = .ok ⟨.punctuator .semicolon, 1⟩ := by
  have hquote : (CodePoint.ofChar ';' = '\'' || CodePoint.ofChar ';' = '"') = false := by decide
  have hback : ¬(CodePoint.ofChar ';').val = 0x60 := by decide
  have hslash : (decide (CodePoint.ofChar ';' = '/') && regex) = false := by
    cases regex <;> decide
  have hnumeral : startsNumeral (CodePoint.ofChar ';' :: rest) = false := by
    have hdigit : CodePoint.isDigit (CodePoint.ofChar ';') = false := by decide
    simp [startsNumeral, hdigit, CodePoint.ofChar_inj]
  have hname : isNameStart (CodePoint.ofChar ';') = false := by decide
  have hlong : Punctuator.longest? (CodePoint.ofChar ';' :: rest) = some .semicolon := by
    refine longest_of_unique ⟨rest, rfl⟩ fun q hq => ?_
    have hstart := head_of_prefix hq
    revert hstart
    cases q <;> decide
  have hfound : punctuator? (CodePoint.ofChar ';' :: rest) = some .semicolon :=
    punctuator_eq_self hlong nofun
  simp only [cut, hquote, hback, hslash, hnumeral, hname, Bool.false_eq_true, if_false, hfound]
  rfl

/-- A slash that starts no regular expression starts a division sign. -/
theorem cut_slash (h : cut false (CodePoint.ofChar '/') rest = .ok found) :
    found.kind = .punctuator .slash ∨ found.kind = .punctuator .slashAssign := by
  have hquote : (CodePoint.ofChar '/' = '\'' || CodePoint.ofChar '/' = '"') = false := by decide
  have hback : ¬(CodePoint.ofChar '/').val = 0x60 := by decide
  have hnumeral : startsNumeral (CodePoint.ofChar '/' :: rest) = false := by
    have hdigit : CodePoint.isDigit (CodePoint.ofChar '/') = false := by decide
    simp [startsNumeral, hdigit, CodePoint.ofChar_inj]
  have hname : isNameStart (CodePoint.ofChar '/') = false := by decide
  simp only [cut, hquote, hback, Bool.and_false, hnumeral, hname, Bool.false_eq_true, if_false] at h
  split at h
  · rename_i p hp
    cases h
    have hstart := head_of_prefix (prefix_of_punctuator hp)
    have hslash : p = .slash ∨ p = .slashAssign := by
      revert hstart
      cases p <;> decide
    rcases hslash with rfl | rfl
    · exact .inl rfl
    · exact .inr rfl
  · cases h

end

end ModuleLowering.Scanner
