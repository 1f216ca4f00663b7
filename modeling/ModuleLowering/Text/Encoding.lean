import ModuleLowering.Text.Basic

/-!
# Encoding

Texts as bytes, in UTF-8. Reading refuses bytes that are not the shortest form of a code point, and
surrogates; writing refuses surrogates as well. In texts that are read from files every line break
is a line feed.
-/

set_option autoImplicit false

namespace ModuleLowering.Text

/-- Whether a byte continues a code point. -/
def isTail (b : UInt8) : Bool := 0x80 ≤ b && b ≤ 0xBF

/-- The six bits of a byte that continues a code point. -/
def tailBits (b : UInt8) : Nat := b.toNat - 0x80

/-- The code point of a number that is at least `least`, so that it needs its bytes; surrogates are
refused. -/
def pointFrom? (least n : Nat) : Option CodePoint :=
  if n < least then none
  else
    match CodePoint.ofNat? n with
    | some c => if c.isSurrogate then none else some c
    | none => none

/-- The text that some bytes spell. -/
def ofUtf8? : List UInt8 → Option Text
  | [] => some []
  | a :: rest =>
    if a < 0x80 then (ofUtf8? rest).map (CodePoint.ofSmall a.toNat :: ·)
    else
      match rest with
      | [] => none
      | b :: rest =>
        if !isTail b then none
        else if 0xC0 ≤ a && a < 0xE0 then do
          let c ← pointFrom? 0x80 ((a.toNat - 0xC0) * 0x40 + tailBits b)
          return c :: (← ofUtf8? rest)
        else
          match rest with
          | [] => none
          | c :: rest =>
            if !isTail c then none
            else if 0xE0 ≤ a && a < 0xF0 then do
              let point ←
                pointFrom? 0x800 (((a.toNat - 0xE0) * 0x40 + tailBits b) * 0x40 + tailBits c)
              return point :: (← ofUtf8? rest)
            else
              match rest with
              | [] => none
              | d :: rest =>
                if !isTail d || a < 0xF0 || 0xF8 ≤ a then none
                else do
                  let high := ((a.toNat - 0xF0) * 0x40 + tailBits b) * 0x40 + tailBits c
                  let point ← pointFrom? 0x10000 (high * 0x40 + tailBits d)
                  return point :: (← ofUtf8? rest)

/-- The bytes of a code point that is no surrogate. -/
def pointBytes? (c : CodePoint) : Option (List UInt8) :=
  let tail (n : Nat) : UInt8 := .ofNat (0x80 + n % 0x40)
  let n := c.val
  if c.isSurrogate then none
  else if n < 0x80 then some [.ofNat n]
  else if n < 0x800 then some [.ofNat (0xC0 + n / 0x40), tail n]
  else if n < 0x10000 then some [.ofNat (0xE0 + n / 0x1000), tail (n / 0x40), tail n]
  else
    some [.ofNat (0xF0 + n / 0x40000), tail (n / 0x1000), tail (n / 0x40), tail n]

def toUtf8? (t : Text) : Option (List UInt8) := (t.mapM pointBytes?).map List.flatten

/-- A text with a line feed for every line break of the kinds that files hold. -/
def unixLines : Text → Text
  | [] => []
  | [c] => [if c = '\r' then '\n' else c]
  | c :: d :: rest =>
    if c = '\r' then
      if d = '\n' then ('\n' : CodePoint) :: unixLines rest else '\n' :: unixLines (d :: rest)
    else c :: unixLines (d :: rest)

/-- The parts of a text between the code points `separator`. -/
def splitAt (separator : CodePoint) : Text → List Text
  | [] => [[]]
  | c :: rest =>
    if c = separator then [] :: splitAt separator rest
    else
      match splitAt separator rest with
      | [] => [[c]]
      | part :: parts => (c :: part) :: parts

end ModuleLowering.Text
