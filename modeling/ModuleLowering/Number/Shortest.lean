import ModuleLowering.Number.Binary64
import ModuleLowering.Text.Basic

/-!
# Shortest decimals

The text of a floating point number: the fewest decimal digits that read back as the same number,
and of those the nearest to it. For one to seventeen digits the two neighbours of the number on
that decimal grid are tried; the first grid with a neighbour that reads back wins.
-/

set_option autoImplicit false

namespace ModuleLowering.Binary64

/-- The exponent `k` with `10 ^ (k - 1) ≤ num / den < 10 ^ k`. -/
def decimalPoint (num den : Nat) : Int :=
  let k : Int := (decimalLength num : Int) - decimalLength den
  let reaches (j : Int) : Bool :=
    if j < 0 then den ≤ num * Nat.pow 10 j.natAbs else den * Nat.pow 10 j.natAbs ≤ num
  if reaches k then k + 1 else k

/-- The point of the decimal grid of unit `10 ^ unit` that is nearest to a finite number, among
its two neighbours that read back; of two nearest ones the even. -/
def gridPoint? (mantissa : Nat) (exponent unit : Int) : Option Nat :=
  let (num, den) := quotient mantissa exponent
  let (num, den) :=
    if unit < 0 then (num * Nat.pow 10 unit.natAbs, den) else (num, den * Nat.pow 10 unit.natAbs)
  let low := num / den
  let rest := num % den
  let readsBack (p : Nat) : Bool := ofDecimal false p unit = finite false mantissa exponent
  match readsBack low, readsBack (low + 1) with
  | true, true =>
    if 2 * rest < den || (2 * rest = den && low % 2 = 0) then some low else some (low + 1)
  | true, false => some low
  | false, true => some (low + 1)
  | false, false => none

/-- Digits and unit of the shortest decimal, trying `left` more lengths from `length` on. -/
def shortestFrom (mantissa : Nat) (exponent point : Int) : Nat → Nat → Nat × Int
  | 0, _ => (0, 0)
  | left + 1, length =>
    match gridPoint? mantissa exponent (point - length) with
    | some p => (p, point - length)
    | none => shortestFrom mantissa exponent point left (length + 1)

/-- Digits and unit of the shortest decimal that reads back as `mantissa * 2 ^ exponent`. -/
def shortest (mantissa : Nat) (exponent : Int) : Nat × Int :=
  let (num, den) := quotient mantissa exponent
  shortestFrom mantissa exponent (decimalPoint num den) 17 1

/-- The digits without their final zeros. -/
def significant (digits : List Char) : List Char :=
  (digits.reverse.dropWhile (· == '0')).reverse

/-- Digits with a point after the first `place` ones: positional from `10 ^ -4` to below
`10 ^ 16`, with at least one decimal; otherwise with an exponent of at least two digits. -/
def layOut (digits : List Char) (place : Int) : List Char :=
  if -4 < place && place ≤ 16 then
    if place ≤ 0 then '0' :: '.' :: (List.replicate place.natAbs '0' ++ digits)
    else
      let whole := digits.take place.natAbs
      let padding := List.replicate (place.natAbs - whole.length) '0'
      let decimals := digits.drop place.natAbs
      whole ++ padding ++ '.' :: (if decimals.isEmpty then ['0'] else decimals)
  else
    let mark := if digits.length ≤ 1 then digits else digits.take 1 ++ '.' :: digits.drop 1
    let e := place - 1
    let size := Nat.toDigits 10 e.natAbs
    let size := if size.length < 2 then '0' :: size else size
    mark ++ 'e' :: (if e < 0 then '-' else '+') :: size

/-- The text of a floating point number. -/
def text : Binary64 → Text
  | nan => "nan"
  | infinite negative => if negative then "-inf" else "inf"
  | finite negative mantissa exponent =>
    let unsigned :=
      if mantissa = 0 then ['0', '.', '0']
      else
        let (p, unit) := shortest mantissa exponent
        let digits := Nat.toDigits 10 p
        layOut (significant digits) (digits.length + unit)
    ((if negative then '-' :: unsigned else unsigned).map CodePoint.ofChar)

end ModuleLowering.Binary64
