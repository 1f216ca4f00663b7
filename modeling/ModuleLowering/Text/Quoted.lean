import ModuleLowering.Text.Class

/-!
# Quoted texts

Three ways to write a text between quotes: as a string literal in double quotes, the same with
ASCII alone, and as it is shown in a message, where every unprintable code point is spelled out.
-/

set_option autoImplicit false

namespace ModuleLowering.Text

/-- The lower-case hexadecimal digits of `n`, padded with zeros to `width`. -/
def hex (width n : Nat) : Text :=
  let digits := Nat.toDigits 16 n
  (List.replicate (width - digits.length) '0' ++ digits).map CodePoint.ofChar

/-- The short escapes that both forms in double quotes share. -/
def shortEscape? (c : CodePoint) : Option Text :=
  if c = '"' then some "\\\""
  else if c = '\\' then some "\\\\"
  else if c = '\n' then some "\\n"
  else if c = '\r' then some "\\r"
  else if c = '\t' then some "\\t"
  else if c.val = 0x08 then some "\\b"
  else if c.val = 0x0C then some "\\f"
  else none

/-- One code point of a string literal: only the quote, the backslash and control codes are
escaped. -/
def escaped (c : CodePoint) : Text :=
  match shortEscape? c with
  | some t => t
  | none => if c.val < 0x20 then "\\u" ++ hex 4 c.val else [c]

/-- A text as a string literal in double quotes. -/
def quoted (t : Text) : Text := "\"" ++ t.flatMap escaped ++ "\""

/-- One code point of a string literal in ASCII: beyond it each UTF-16 unit is escaped. -/
def escapedAscii (c : CodePoint) : Text :=
  match shortEscape? c with
  | some t => t
  | none =>
    if 0x20 ≤ c.val && c.val < 0x7F then [c]
    else if c.val < 0x10000 then "\\u" ++ hex 4 c.val
    else
      let n := c.val - 0x10000
      "\\u" ++ hex 4 (0xD800 + n / 0x400) ++ "\\u" ++ hex 4 (0xDC00 + n % 0x400)

/-- A text as a string literal in double quotes that holds ASCII only. -/
def quotedAscii (t : Text) : Text := "\"" ++ t.flatMap escapedAscii ++ "\""

/-- One code point of a shown text between quotes of the kind `quote`. -/
def shownPoint (quote c : CodePoint) : Text :=
  if c = quote || c = '\\' then ['\\', c]
  else if c = '\n' then "\\n"
  else if c = '\r' then "\\r"
  else if c = '\t' then "\\t"
  else if c.isPrintable then [c]
  else if c.val < 0x100 then "\\x" ++ hex 2 c.val
  else if c.val < 0x10000 then "\\u" ++ hex 4 c.val
  else "\\U" ++ hex 8 c.val

/-- The quote of a shown text: single, unless that would need an escape and a double one would
not. -/
def shownQuote (t : Text) : CodePoint :=
  if t.contains (CodePoint.ofChar '\'') && !t.contains (CodePoint.ofChar '"') then '"' else '\''

/-- A text as messages show it. -/
def shown (t : Text) : Text :=
  let quote := shownQuote t
  quote :: t.flatMap (shownPoint quote) ++ [quote]

end ModuleLowering.Text
