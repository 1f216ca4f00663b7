import ModuleLowering.Json.Value
import ModuleLowering.Token.Position

/-!
# Reading JSON

From a text to the value that it spells. Besides the standard numbers, `NaN` and `Infinity` are
read. Where a name occurs twice in an object, the last value counts. A fault is placed by how much
of the text is left from its place on.
-/

set_option autoImplicit false

namespace ModuleLowering.Json

/-- What is wrong with a text that spells no value. -/
inductive Fault where
  | expectingValue
  | expectingName
  | expectingColon
  | expectingComma
  | extraData
  | byteOrderMark
  | unterminatedString
  | controlCharacter
  | invalidEscape
  | invalidUnicodeEscape
  /-- A whole number with more digits than are read. -/
  | longInteger
deriving DecidableEq

namespace Fault

/-- The message of a fault, without its place. -/
def message : Fault → Text
  | expectingValue => "Expecting value"
  | expectingName => "Expecting property name enclosed in double quotes"
  | expectingColon => "Expecting ':' delimiter"
  | expectingComma => "Expecting ',' delimiter"
  | extraData => "Extra data"
  | byteOrderMark => "Unexpected UTF-8 BOM (decode using utf-8-sig)"
  | unterminatedString => "Unterminated string starting at"
  | controlCharacter => "Invalid control character at"
  | invalidEscape => "Invalid \\escape"
  | invalidUnicodeEscape => "Invalid \\uXXXX escape"
  | longInteger => "number too long"

end Fault

/-- A fault, and how many code points are left from its place on. -/
structure Stop where
  fault : Fault
  left : Nat
deriving DecidableEq

def stopAt {α : Type} (fault : Fault) (t : Text) : Except Stop α := .error ⟨fault, t.length⟩

/-- White space between the parts of a value. -/
def isGap (c : CodePoint) : Bool := c = ' ' || c = '\t' || c = '\n' || c = '\r'

/-- The text after its leading white space. -/
def skipGap (t : Text) : Text := t.dropWhile isGap

/-- The rest of a text that begins with the code point `c`. -/
def after? (c : CodePoint) : Text → Option Text
  | [] => none
  | d :: rest => if d = c then some rest else none

/-! ## Strings -/

/-- The number of the four hexadecimal digits that a text begins with. -/
def fourDigits? (t : Text) : Option Nat :=
  let digits := t.take 4
  if digits.length = 4 && digits.all CodePoint.isHexDigit then
    some (digits.foldl (fun n c => 16 * n + c.digitValue?.getD 0) 0)
  else none

/-- The code point of two surrogates, a high and a low one. -/
def joinSurrogates? (high low : Nat) : Option CodePoint :=
  if 0xD800 ≤ high && high ≤ 0xDBFF && 0xDC00 ≤ low && low ≤ 0xDFFF then
    CodePoint.ofNat? (0x10000 + (high - 0xD800) * 0x400 + (low - 0xDC00))
  else none

/-- What a surrogate that is spelled out joins with, if another one follows it. -/
def joined? (high : Nat) (t : Text) : Option (CodePoint × Text) := do
  let low ← fourDigits? (← after? 'u' (← after? '\\' t))
  return (← joinSurrogates? high low, t.drop 6)

/-- What a numeric escape stands for, read from its `u` on. -/
def unicodeEscape (t : Text) : Except Stop (CodePoint × Text) :=
  let rest := t.drop 1
  match fourDigits? rest with
  | some n =>
    if rest.length ≤ 4 then stopAt .invalidUnicodeEscape t
    else
      let rest := rest.drop 4
      match joined? n rest with
      | some found => .ok found
      | none => .ok (CodePoint.ofSmall n, rest)
  | none => stopAt .invalidUnicodeEscape t

/-- What a code point after a backslash stands for. -/
def simpleEscape? (c : CodePoint) : Option CodePoint :=
  if c = '"' || c = '\\' || c = '/' then some c
  else if c = 'b' then CodePoint.ofNat? 0x08
  else if c = 'f' then CodePoint.ofNat? 0x0C
  else if c = 'n' then some ('\n' : CodePoint)
  else if c = 'r' then some ('\r' : CodePoint)
  else if c = 't' then some ('\t' : CodePoint)
  else none

/-- The rest of a string whose opening quote `opening` begins with, through its closing quote. -/
def stringRest (opening : Text) : Nat → Text → Except Stop (Text × Text)
  | 0, _ => stopAt .unterminatedString opening
  | _, [] => stopAt .unterminatedString opening
  | fuel + 1, c :: rest =>
    if c = '"' then .ok ([], rest)
    else if c = '\\' then
      match rest with
      | [] => stopAt .unterminatedString opening
      | d :: more => do
        let (p, rest) ←
          if d = 'u' then unicodeEscape rest
          else
            match simpleEscape? d with
            | some p => .ok (p, more)
            | none => stopAt .invalidEscape (c :: rest)
        let (t, rest) ← stringRest opening fuel rest
        return (p :: t, rest)
    else if c.val < 0x20 then stopAt .controlCharacter (c :: rest)
    else do
      let (t, rest) ← stringRest opening fuel rest
      return (c :: t, rest)

/-- A string from its opening quote on. -/
def string (t : Text) : Except Stop (Text × Text) := stringRest t t.length (t.drop 1)

/-! ## Numbers -/

def digitsLength (t : Text) : Nat := (t.takeWhile CodePoint.isAsciiDigit).length

/-- The length of the whole part of a number: zero alone, or digits that start with another. -/
def wholeLength (t : Text) : Nat :=
  if t.head? = some ('0' : CodePoint) then 1 else digitsLength t

/-- The length of a point and the digits after it; zero unless there are both. -/
def decimalsLength (t : Text) : Nat :=
  match after? '.' t with
  | some rest =>
    match digitsLength rest with
    | 0 => 0
    | n => n + 1
  | none => 0

/-- The length of an exponent with its digits; zero if there is none. -/
def exponentLength (t : Text) : Nat :=
  match (after? 'e' t).or (after? 'E' t) with
  | some rest =>
    let signed := ((after? '+' rest).or (after? '-' rest))
    match digitsLength (signed.getD rest) with
    | 0 => 0
    | n => n + 1 + (if signed.isSome then 1 else 0)
  | none => 0

def number? (t : Text) : Option (Except Stop (Json × Text)) :=
  let sign := if t.head? = some ('-' : CodePoint) then 1 else 0
  match wholeLength (t.drop sign) with
  | 0 => none
  | whole =>
    let whole := sign + whole
    let decimals := decimalsLength (t.drop whole)
    let exponent := exponentLength (t.drop (whole + decimals))
    let length := whole + decimals + exponent
    let spelled := t.take length
    let value : Option Number :=
      if decimals + exponent = 0 then (Numeral.int? 10 spelled).map .integer
      else (Numeral.float? spelled).map .float
    match value with
    | some n => some (.ok (number n, t.drop length))
    | none => some (stopAt .longInteger t)

/-! ## Values -/

/-- The words that are values. -/
def words : List (Text × Json) :=
  [("null", null), ("true", boolean true), ("false", boolean false),
    ("NaN", number (.float .nan)), ("Infinity", number (.float (.infinite false))),
    ("-Infinity", number (.float (.infinite true)))]

def word? (t : Text) : Option (Json × Text) :=
  (words.find? fun word => t.startsWith word.1).map fun word => (word.2, t.drop word.1.length)

/-- The rest of an array after its first item, up to and including the closing bracket. -/
def moreItems (value : Text → Except Stop (Json × Text)) :
    Nat → Text → Except Stop (List Json × Text)
  | 0, t => stopAt .expectingComma t
  | fuel + 1, t =>
    let t := skipGap t
    match after? ']' t, after? ',' t with
    | some rest, _ => .ok ([], rest)
    | none, some rest => do
      let (item, rest) ← value (skipGap rest)
      let (items, rest) ← moreItems value fuel rest
      return (item :: items, rest)
    | none, none => stopAt .expectingComma t

/-- The items of an array after its opening bracket. -/
def items (value : Text → Except Stop (Json × Text)) (t : Text) :
    Except Stop (List Json × Text) :=
  let t := skipGap t
  match after? ']' t with
  | some rest => .ok ([], rest)
  | none => do
    let (item, rest) ← value t
    let (more, rest) ← moreItems value rest.length.succ rest
    return (item :: more, rest)

/-- A member of an object: its name, a colon and its value. -/
def memberOf (value : Text → Except Stop (Json × Text)) (t : Text) :
    Except Stop ((Text × Json) × Text) :=
  if t.head? = some ('"' : CodePoint) then do
    let (name, rest) ← string t
    let rest := skipGap rest
    match after? ':' rest with
    | some rest =>
      let (v, rest) ← value (skipGap rest)
      return ((name, v), rest)
    | none => stopAt .expectingColon rest
  else stopAt .expectingName t

/-- Whether a text begins with the brace that closes an object. -/
def closesObject (t : Text) : Bool := t.head?.map (·.val) = some 0x7D

/-- The rest of an object after a member, with the members before it. -/
def moreMembers (value : Text → Except Stop (Json × Text)) :
    Nat → List (Text × Json) → Text → Except Stop (List (Text × Json) × Text)
  | 0, _, t => stopAt .expectingComma t
  | fuel + 1, known, t =>
    let t := skipGap t
    if closesObject t then .ok (known, t.drop 1)
    else
      match after? ',' t with
      | some rest => do
        let (found, rest) ← memberOf value (skipGap rest)
        moreMembers value fuel (setMember found.1 found.2 known) rest
      | none => stopAt .expectingComma t

/-- The members of an object after its opening brace. -/
def members (value : Text → Except Stop (Json × Text)) (t : Text) :
    Except Stop (List (Text × Json) × Text) :=
  let t := skipGap t
  if closesObject t then .ok ([], t.drop 1)
  else do
    let (found, rest) ← memberOf value t
    moreMembers value rest.length.succ [found] rest

/-- The value that a text begins with, `fuel` being above its depth. -/
def value : Nat → Text → Except Stop (Json × Text)
  | 0, t => stopAt .expectingValue t
  | _, [] => stopAt .expectingValue []
  | fuel + 1, c :: rest =>
    if c = '"' then (string (c :: rest)).map fun found => (text found.1, found.2)
    else if c = '[' then
      (items (value fuel) rest).map fun found => (array found.1, found.2)
    else if c.val = 0x7B then
      (members (value fuel) rest).map fun found => (object found.1, found.2)
    else
      match word? (c :: rest) with
      | some found => .ok found
      | none => (number? (c :: rest)).getD (stopAt .expectingValue (c :: rest))

/-- The value that a whole text spells. -/
def ofText (t : Text) : Except Stop Json := do
  if t.head?.map (·.val) = some 0xFEFF then stopAt .byteOrderMark t
  let (v, rest) ← value (t.length + 1) (skipGap t)
  match skipGap rest with
  | [] => return v
  | extra => stopAt .extraData extra

/-- The message of a stop in a text: the fault with its line, its column and its offset. -/
def Stop.message (source : Text) (s : Stop) : Text :=
  let offset := source.length - s.left
  let place := Position.start.advance (source.take offset)
  s.fault.message ++ ": line " ++ Text.ofNat place.line ++ " column " ++ Text.ofNat place.column ++
    " (char " ++ Text.ofNat offset ++ ")"

end ModuleLowering.Json
