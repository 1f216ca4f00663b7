import ModuleLowering.Text.Basic
import ModuleLowering.Text.LetterRanges
import ModuleLowering.Text.NumeralRanges
import ModuleLowering.Text.UnprintableRanges

/-!
# Classes of code points

The classes that the scanner, the numerals and the quoted texts ask for. Each class is a rule on
ASCII, which closes by computation, and a table of runs beyond it.
-/

set_option autoImplicit false

namespace ModuleLowering.CodePoint

/-- Whether one of the runs holds `n`. -/
def inRuns (runs : List (Nat × Nat)) (n : Nat) : Bool :=
  runs.any fun run => run.1 ≤ n && n ≤ run.2

/-- The digits `0` to `9`. -/
def isAsciiDigit (c : CodePoint) : Bool := 0x30 ≤ c.val && c.val ≤ 0x39

/-- The letters `a` to `z` and `A` to `Z`. -/
def isAsciiLetter (c : CodePoint) : Bool :=
  (0x61 ≤ c.val && c.val ≤ 0x7A) || (0x41 ≤ c.val && c.val ≤ 0x5A)

/-- Letters of any script. -/
def isLetter (c : CodePoint) : Bool :=
  if c.val < 0x80 then c.isAsciiLetter else inRuns letterRanges c.val

/-- Decimal digits of any script. -/
def isDecimal (c : CodePoint) : Bool :=
  if c.val < 0x80 then c.isAsciiDigit else inRuns decimalRanges c.val

/-- Decimal digits, and digits that are written above, below or inside a sign. -/
def isDigit (c : CodePoint) : Bool :=
  if c.val < 0x80 then c.isAsciiDigit
  else inRuns decimalRanges c.val || inRuns digitRanges c.val

/-- Whatever has a numeric value and is no letter. -/
def isNumeral (c : CodePoint) : Bool :=
  if c.val < 0x80 then c.isAsciiDigit
  else inRuns decimalRanges c.val || inRuns digitRanges c.val || inRuns numeralRanges c.val

/-- Letters and numerals of any script. -/
def isAlphanumeric (c : CodePoint) : Bool := c.isLetter || c.isNumeral

/-- What may stand inside a word: letters, numerals and the underscore. -/
def isWord (c : CodePoint) : Bool := c.isAlphanumeric || c = '_'

/-- Whether a code point has a glyph of its own; of the blanks only the space counts. -/
def isPrintable (c : CodePoint) : Bool :=
  if c.val < 0x80 then 0x20 ≤ c.val && c.val ≤ 0x7E
  else !inRuns unprintableRanges c.val

/-- Blanks: the white space of ASCII, its four separators, and the space separators, line
separator and paragraph separator beyond it. -/
def isBlank (c : CodePoint) : Bool :=
  (0x09 ≤ c.val && c.val ≤ 0x0D) || (0x1C ≤ c.val && c.val ≤ 0x20) || c.val = 0x85 ||
    c.val = 0xA0 || c.val = 0x1680 || (0x2000 ≤ c.val && c.val ≤ 0x200A) || c.val = 0x2028 ||
    c.val = 0x2029 || c.val = 0x202F || c.val = 0x205F || c.val = 0x3000

/-- The value of a decimal digit of any script. -/
def decimalValue? (c : CodePoint) : Option Nat :=
  if c.val < 0x80 then if c.isAsciiDigit then some (c.val - 0x30) else none
  else (decimalRanges.find? fun run => run.1 ≤ c.val && c.val ≤ run.2).map fun run =>
    (c.val - run.1) % 10

/-- The value of an ASCII digit or letter as a digit of a base up to 36. -/
def digitValue? (c : CodePoint) : Option Nat :=
  if c.isAsciiDigit then some (c.val - 0x30)
  else if 0x61 ≤ c.val && c.val ≤ 0x7A then some (c.val - 0x61 + 10)
  else if 0x41 ≤ c.val && c.val ≤ 0x5A then some (c.val - 0x41 + 10)
  else none

/-- The sixteen hexadecimal digits in both cases. -/
def isHexDigit (c : CodePoint) : Bool :=
  match c.digitValue? with
  | some n => n < 16
  | none => false

/-- A word's code points lie in its table's runs or are ASCII, so an ASCII decision is final. -/
theorem isWord_of_ascii {c : CodePoint} (h : c.val < 0x80) :
    c.isWord = (c.isAsciiLetter || c.isAsciiDigit || c = '_') := by
  simp [isWord, isAlphanumeric, isLetter, isNumeral, h]

end ModuleLowering.CodePoint
