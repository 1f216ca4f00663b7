import ModuleLowering.Number.Binary64
import ModuleLowering.Text.Class

/-!
# Numerals

The value of a numeral as a module spells it. Underscores are skipped. A final `n` marks a whole
number, `0x`, `0o` and `0b` give the base, a point or an exponent makes a floating point number,
and a leading zero makes an octal number if every digit allows it. Digits may be decimal digits of
any script. Nothing else has a value.
-/

set_option autoImplicit false

namespace ModuleLowering

/-- The value of a numeral. -/
inductive Number where
  | integer (n : Int)
  | float (x : Binary64)
deriving DecidableEq, Inhabited

namespace Number

/-- Equality of values, across the two kinds of number. -/
def sameValue : Number → Number → Bool
  | integer m, integer n => m = n
  | float x, float y => x.sameValue y
  | integer n, float (.finite negative m e) => Binary64.isInt negative m e n
  | float (.finite negative m e), integer n => Binary64.isInt negative m e n
  | _, _ => false

end Number

namespace Numeral

/-- A whole number in decimal has at most this many digits. -/
def maxDecimalDigits : Nat := 4300

/-- A text without the blanks at both ends. -/
def trim (t : Text) : Text :=
  ((t.dropWhile CodePoint.isBlank).reverse.dropWhile CodePoint.isBlank).reverse

/-- Whether a sign makes the rest negative, and the rest. -/
def splitSign : Text → Bool × Text
  | [] => (false, [])
  | c :: rest => if c = '-' then (true, rest) else if c = '+' then (false, rest) else (false, c :: rest)

/-- The value of a digit below `base`; a decimal digit may come from any script. -/
def digitBelow? (base : Nat) (c : CodePoint) : Option Nat :=
  (c.decimalValue?.orElse fun _ => c.digitValue?).filter (· < base)

/-- The number that the digits spell in `base`, all of them being digits of it. -/
def natOfDigits? (base : Nat) (t : Text) : Option Nat :=
  t.foldl (fun value? c => do return (← value?) * base + (← digitBelow? base c)) (some 0)

/-- The number that one or more digits spell in `base`. -/
def nat? (base : Nat) (t : Text) : Option Nat :=
  if t.isEmpty || (base = 10 && maxDecimalDigits < t.length) then none else natOfDigits? base t

def signed (negative : Bool) (n : Nat) : Int := if negative then -(n : Int) else n

/-- A whole number in `base`, perhaps with a sign and blanks around it. -/
def int? (base : Nat) (t : Text) : Option Int :=
  let (negative, digits) := splitSign (trim t)
  (nat? base digits).map (signed negative)

def announcedBase? : Text → Option Nat
  | zero :: mark :: _ =>
    if zero = '0' then
      if mark = 'x' || mark = 'X' then some 16
      else if mark = 'o' || mark = 'O' then some 8
      else if mark = 'b' || mark = 'B' then some 2
      else none
    else none
  | _ => none

/-- A whole number whose base a prefix may announce; in decimal only zero starts with a zero. -/
def prefixedInt? (t : Text) : Option Int :=
  let (negative, body) := splitSign (trim t)
  match announcedBase? body with
  | some base => (nat? base (body.drop 2)).map (signed negative)
  | none => do
    let n ← nat? 10 body
    if body.head?.bind CodePoint.decimalValue? = some 0 && n ≠ 0 then none
    else return signed negative n

/-- The exponent part of a decimal: nothing, or `e`, perhaps a sign, and digits. -/
def exponent? : Text → Option Int
  | [] => some 0
  | c :: rest =>
    if c = 'e' || c = 'E' then
      let (negative, digits) := splitSign rest
      if digits.isEmpty then none else (natOfDigits? 10 digits).map (signed negative)
    else none

/-- A decimal with a point or an exponent, perhaps with a sign and blanks around it. -/
def float? (t : Text) : Option Binary64 := do
  let (negative, body) := splitSign (trim t)
  let whole := body.takeWhile CodePoint.isDecimal
  let rest := body.drop whole.length
  let (decimals, rest) :=
    match rest with
    | c :: more =>
      if c = '.' then
        let decimals := more.takeWhile CodePoint.isDecimal
        (decimals, more.drop decimals.length)
      else ([], rest)
    | [] => ([], rest)
  let e ← exponent? rest
  if whole.isEmpty && decimals.isEmpty then none
  else
    let digits ← natOfDigits? 10 (whole ++ decimals)
    return Binary64.ofDecimal negative digits (e - decimals.length)

def value? (raw : Text) : Option Number :=
  let t := raw.filter fun (c : CodePoint) => c ≠ '_'
  if t.getLast? = some ('n' : CodePoint) then (prefixedInt? t.dropLast).map .integer
  else if (announcedBase? t).isSome then (prefixedInt? t).map .integer
  else if t.any fun c => c = '.' || c = 'e' || c = 'E' then (float? t).map .float
  else if 1 < t.length && t.head? = some ('0' : CodePoint) && t.all CodePoint.isDigit then
    let octal := t.all fun c => 0x30 ≤ c.val && c.val ≤ 0x37
    (int? (if octal then 8 else 10) t).map .integer
  else (int? 10 t).map .integer

end Numeral

end ModuleLowering
