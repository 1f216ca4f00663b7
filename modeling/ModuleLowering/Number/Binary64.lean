/-!
# Binary floating point numbers

The 64-bit binary numbers as exact values: a sign, a mantissa below `2 ^ 53` and a power of two.
Rounding a quotient to the nearest of them is exact arithmetic on natural numbers, a tie going to
the even mantissa.
-/

set_option autoImplicit false

namespace ModuleLowering

/-- A 64-bit binary floating point number. A finite one is `mantissa * 2 ^ exponent`, with the
greatest mantissa below `2 ^ 53` that the least exponent allows. -/
inductive Binary64 where
  | nan
  | infinite (negative : Bool)
  | finite (negative : Bool) (mantissa : Nat) (exponent : Int)
deriving DecidableEq, Inhabited

namespace Binary64

/-- The least exponent of a finite number. -/
def minExponent : Int := -1074

/-- The greatest exponent of a finite number. -/
def maxExponent : Int := 971

/-- The quotient of `num` by `den * 2 ^ e` and the parts of the fraction that is left over. -/
def scaled (num den : Nat) (e : Int) : Nat × Nat × Nat :=
  if e < 0 then
    let n := num * Nat.pow 2 e.natAbs
    (n / den, n % den, den)
  else
    let d := den * Nat.pow 2 e.natAbs
    (num / d, num % d, d)

/-- The exponent at which the quotient of `num` by `den` has 53 binary digits, or the least one. -/
def fittingExponent (num den : Nat) : Int :=
  let e : Int := (num.log2 : Int) - den.log2 - 53
  let e := if (scaled num den e).1 < Nat.pow 2 53 then e else e + 1
  max e minExponent

/-- The number nearest to the quotient of `num` by `den`; of two nearest ones that with the even
mantissa. -/
def ofQuotient (negative : Bool) (num den : Nat) : Binary64 :=
  let e := fittingExponent num den
  let (q, rest, unit) := scaled num den e
  let up := unit < 2 * rest || (unit = 2 * rest && q % 2 = 1)
  let q := if up then q + 1 else q
  let (q, e) := if q = Nat.pow 2 53 then (Nat.pow 2 52, e + 1) else (q, e)
  if maxExponent < e then infinite negative else finite negative q e

/-- How many decimal digits a number has; zero has none. -/
def decimalLength (n : Nat) : Nat := if n = 0 then 0 else (Nat.toDigits 10 n).length

/-- The number nearest to `digits * 10 ^ exponent`. Values far outside the finite range are
decided by their decimal length, without computing the power. -/
def ofDecimal (negative : Bool) (digits : Nat) (exponent : Int) : Binary64 :=
  let top := (decimalLength digits : Int) + exponent
  if digits = 0 || top < -330 then finite negative 0 minExponent
  else if 330 < top then infinite negative
  else if exponent < 0 then ofQuotient negative digits (Nat.pow 10 exponent.natAbs)
  else ofQuotient negative (digits * Nat.pow 10 exponent.natAbs) 1

/-- Numerator and denominator of `mantissa * 2 ^ exponent`. -/
def quotient (mantissa : Nat) (exponent : Int) : Nat × Nat :=
  let power := Nat.pow 2 exponent.natAbs
  if exponent < 0 then (mantissa, power) else (mantissa * power, 1)

/-- Whether a finite number is exactly the whole number `n`; the sign of zero does not count. -/
def isInt (negative : Bool) (mantissa : Nat) (exponent : Int) (n : Int) : Bool :=
  let (num, den) := quotient mantissa exponent
  let signed : Int := if negative then -(num : Int) else num
  signed = n * den

/-- Equality of values: nothing equals a not-a-number, and the two zeros are equal. -/
def sameValue : Binary64 → Binary64 → Bool
  | finite s m e, finite s' m' e' => m = m' && (m = 0 || (s = s' && e = e'))
  | infinite s, infinite s' => s = s'
  | _, _ => false

end Binary64

end ModuleLowering
