import ModuleLowering.Text.Class

/-!
# String literals

The text that a string literal stands for: what is between the quotes, with the escapes resolved.
-/

set_option autoImplicit false

namespace ModuleLowering

/-- Why an escape stands for no code point. -/
inductive EscapeFault where
  /-- The number is too great for a code point. -/
  | beyondUnicode
  /-- The number is too great for a machine word. -/
  | beyondWord
deriving DecidableEq

namespace StringLiteral

/-- The number that hexadecimal digits spell. -/
def hexValue (digits : Text) : Nat :=
  digits.foldl (fun n c => 16 * n + c.digitValue?.getD 0) 0

/-- The code point that hexadecimal digits spell. -/
def hexPoint (digits : Text) : Except EscapeFault CodePoint :=
  let n := hexValue digits
  match CodePoint.ofNat? n with
  | some c => .ok c
  | none => .error (if n < Nat.pow 2 31 then .beyondUnicode else .beyondWord)

/-- The first `count` code points, if they are hexadecimal digits. -/
def hexDigits? (count : Nat) (t : Text) : Option Text :=
  let digits := t.take count
  if digits.length = count && digits.all CodePoint.isHexDigit then some digits else none

/-- The hexadecimal digits between braces that a text begins with. -/
def bracedDigits? (t : Text) : Option Text :=
  match t with
  | [] => none
  | c :: rest =>
    let digits := rest.takeWhile CodePoint.isHexDigit
    if c.val = 0x7B && !digits.isEmpty && ((rest.drop digits.length).head?.map (·.val)) = some 0x7D
    then some digits
    else none

/-- What a single code point after a backslash stands for: a control code, itself, or nothing if
it ends a line. -/
def simpleEscape (c : CodePoint) : Text :=
  if c = '\n' || c = '\r' || c.val = 0x2028 || c.val = 0x2029 then []
  else if c = 'n' then "\n"
  else if c = 't' then "\t"
  else if c = 'r' then "\r"
  else if c = 'b' then "\x08"
  else if c = 'f' then "\x0c"
  else if c = 'v' then "\x0b"
  else if c = '0' then "\x00"
  else [c]

/-- What the escape stands for whose code points after the backslash are `c :: rest`, and how many
of `rest` belong to it. -/
def readEscape (c : CodePoint) (rest : Text) : Except EscapeFault (Text × Nat) :=
  if c = 'u' then
    match bracedDigits? rest with
    | some digits => (hexPoint digits).map fun p => ([p], digits.length + 2)
    | none =>
      match hexDigits? 4 rest with
      | some digits => (hexPoint digits).map fun p => ([p], 4)
      | none => .ok ([c], 0)
  else if c = 'x' then
    match hexDigits? 2 rest with
    | some digits => (hexPoint digits).map fun p => ([p], 2)
    | none => .ok ([c], 0)
  else if c = '\r' && rest.head? = some ('\n' : CodePoint) then .ok ([], 1)
  else .ok (simpleEscape c, 0)

/-- A text with its escapes resolved, `fuel` being at least its length. -/
def resolve : Nat → Text → Except EscapeFault Text
  | 0, _ => .ok []
  | _, [] => .ok []
  | fuel + 1, c :: rest =>
    if c = '\\' then
      match rest with
      | [] => .ok [c]
      | d :: more => do
        let (meant, used) ← readEscape d more
        return meant ++ (← resolve fuel (more.drop used))
    else do
      return c :: (← resolve fuel rest)

/-- The text that a literal stands for, given with its quotes. -/
def value (raw : Text) : Except EscapeFault Text :=
  let body := (raw.drop 1).dropLast
  resolve body.length body

end StringLiteral

end ModuleLowering
