/-!
# Texts

A text is a list of code points. A code point may be a surrogate, because a string literal of a
module can spell one out, so neither a character nor a string of the standard library would do.
Lengths, offsets and columns count code points.
-/

set_option autoImplicit false

namespace ModuleLowering

/-- A Unicode code point, surrogates included. -/
structure CodePoint where
  val : Nat
  isLt : val < 0x110000
deriving DecidableEq

namespace CodePoint

def ofChar (c : Char) : CodePoint :=
  ⟨c.toNat, by
    have h := c.valid
    unfold UInt32.isValidChar Nat.isValidChar at h
    show c.val.toNat < 0x110000
    omega⟩

instance : Coe Char CodePoint := ⟨ofChar⟩

instance : Inhabited CodePoint := ⟨' '⟩

def ofNat? (n : Nat) : Option CodePoint :=
  if h : n < 0x110000 then some ⟨n, h⟩ else none

/-- The lower half of a number, as a code point. -/
def ofSmall (n : Nat) : CodePoint := ⟨n % 0x110000, Nat.mod_lt _ (by decide)⟩

/-- Surrogates stand for half a code point in UTF-16 and for nothing on their own. -/
def isSurrogate (c : CodePoint) : Bool := 0xD800 ≤ c.val && c.val ≤ 0xDFFF

/-- The character of a code point; a surrogate has none. -/
def toChar? (c : CodePoint) : Option Char :=
  if h : c.val.isValidChar then some ⟨⟨⟨c.val, by have := c.isLt; omega⟩⟩, h⟩ else none

theorem ofChar_inj {a b : Char} : ofChar a = ofChar b ↔ a = b := by
  constructor
  · intro h
    have hval : a.toNat = b.toNat := congrArg CodePoint.val h
    exact Char.ext (UInt32.toNat_inj.1 hval)
  · rintro rfl
    rfl

end CodePoint

/-- A sequence of code points. -/
abbrev Text := List CodePoint

namespace Text

/-- The code points of a string. -/
def ofString (s : String) : Text := s.toList.map CodePoint.ofChar

instance : Coe String Text := ⟨ofString⟩

/-- A number in decimal. -/
def ofNat (n : Nat) : Text := (Nat.toDigits 10 n).map CodePoint.ofChar

/-- A whole number in decimal, a minus sign before a negative one. -/
def ofInt : Int → Text
  | .ofNat n => ofNat n
  | .negSucc n => "-" ++ ofNat (n + 1)

/-- The parts with `separator` between each two. -/
def join (separator : Text) (parts : List Text) : Text := separator.intercalate parts

/-- `count` copies of a text. -/
def times (count : Nat) (t : Text) : Text := (List.replicate count t).flatten

/-- Whether a text begins with `start`. -/
def startsWith (t start : Text) : Bool := start.isPrefixOf t

/-- The string of a text that has no surrogate. -/
def toString? (t : Text) : Option String := (t.mapM CodePoint.toChar?).map String.ofList

/-- Two decimal spellings are equal only if the numbers are. -/
theorem ofNat_inj {m n : Nat} : ofNat m = ofNat n ↔ m = n := by
  constructor
  · intro h
    have hinj : Function.Injective CodePoint.ofChar := fun a b hab => CodePoint.ofChar_inj.1 hab
    have hdigits : Nat.toDigits 10 m = Nat.toDigits 10 n := (List.map_inj_right hinj).1 h
    have hm := Nat.ofDigitChars_toDigits (b := 10) (n := m) (by decide) (by decide)
    have hn := Nat.ofDigitChars_toDigits (b := 10) (n := n) (by decide) (by decide)
    rw [← hm, hdigits, hn]
  · rintro rfl
    rfl

end Text

end ModuleLowering
