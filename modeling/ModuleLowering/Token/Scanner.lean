import ModuleLowering.Text.Quoted
import ModuleLowering.Token.Lexeme

/-!
# Scanning

Cutting a module text into lexemes. Between lexemes lie gaps of white space and comments. A slash
starts a regular expression or stands for a division, as the lexeme before it decides, and a
template literal is one lexeme with everything inside its substitutions.

Every reader below answers with a number of code points, so that a lexeme is the text taken and
the rest is the text dropped.
-/

set_option autoImplicit false

namespace ModuleLowering

/-- Why a text cannot be cut further. -/
inductive ScanFault where
  | unterminatedComment
  | unterminatedString
  | unterminatedTemplate
  | unterminatedSubstitution
  | unterminatedRegex
  | unexpectedCharacter (c : CodePoint)
  /-- A digit that no numeral starts with, such as a superscript. -/
  | strayDigit
deriving DecidableEq

namespace ScanFault

/-- The message of a fault; there is none for a stray digit. -/
def message? : ScanFault → Option Text
  | unterminatedComment => some "unterminated comment"
  | unterminatedString => some "unterminated string literal"
  | unterminatedTemplate => some "unterminated template literal"
  | unterminatedSubstitution => some "unterminated template substitution"
  | unterminatedRegex => some "unterminated regular expression"
  | unexpectedCharacter c => some ("unexpected character " ++ Text.shown [c])
  | strayDigit => none

end ScanFault

/-- A fault and where it shows, as a distance from the start of what is being read. -/
structure FaultAt where
  fault : ScanFault
  distance : Nat
deriving DecidableEq

namespace FaultAt

/-- The same fault seen from `count` code points earlier. -/
def shift (count : Nat) (f : FaultAt) : FaultAt := ⟨f.fault, f.distance + count⟩

end FaultAt

namespace Scanner

/-! ## Gaps -/

/-- White space between lexemes. -/
def isSpace (c : CodePoint) : Bool :=
  c = ' ' || c = '\t' || c = '\n' || c = '\r' || c.val = 0x0B || c.val = 0x0C || c.val = 0xA0 ||
    c.val = 0xFEFF || c.val = 0x2028 || c.val = 0x2029

/-- White space that ends a line. -/
def isLineBreak (c : CodePoint) : Bool := c = '\n' || c.val = 0x2028 || c.val = 0x2029

/-- The code points before the end of the line. -/
def restOfLine (t : Text) : Nat := (t.takeWhile fun (c : CodePoint) => c ≠ '\n').length

/-- How many code points come before the next `*/`. -/
def commentBody? : Text → Option Nat
  | [] => none
  | c :: rest =>
    if c = '*' && rest.head? = some ('/' : CodePoint) then some 0
    else (commentBody? rest).map (· + 1)

/-- What lies between two lexemes: its length, and whether it breaks the line. -/
structure Gap where
  length : Nat
  lineBreak : Bool
deriving DecidableEq

/-- A gap with a piece before it. -/
def Gap.after (length : Nat) (lineBreak : Bool) (g : Gap) : Gap :=
  ⟨length + g.length, lineBreak || g.lineBreak⟩

/-- The first piece of a gap, if the text starts with one: a run of white space, a line after `#!`
at the very start, or a comment. -/
def gapPiece? (atStart : Bool) (t : Text) : Except FaultAt (Option Gap) :=
  let run := t.takeWhile isSpace
  if !run.isEmpty then .ok (some ⟨run.length, run.any isLineBreak⟩)
  else if atStart && Text.startsWith t "#!" then .ok (some ⟨restOfLine t, false⟩)
  else if Text.startsWith t "//" then .ok (some ⟨restOfLine t, false⟩)
  else if Text.startsWith t "/*" then
    match commentBody? (t.drop 2) with
    | none => .error ⟨.unterminatedComment, 0⟩
    | some n => .ok (some ⟨n + 4, ((t.drop 2).take n).any (· = '\n')⟩)
  else .ok none

/-- The gap at the start of a text, in at most `fuel` pieces. -/
def gap (atStart : Bool) : Nat → Text → Except FaultAt Gap
  | 0, _ => .ok ⟨0, false⟩
  | fuel + 1, t =>
    match gapPiece? atStart t with
    | .error f => .error f
    | .ok none => .ok ⟨0, false⟩
    | .ok (some piece) =>
      match gap false fuel (t.drop piece.length) with
      | .error f => .error (f.shift piece.length)
      | .ok g => .ok (g.after piece.length piece.lineBreak)

/-! ## Lexemes of open length -/

/-- The length of what follows an opening quote, through the closing one. A backslash takes the
next code point along, even a line feed, which otherwise may not occur. -/
def closeString? (quote : CodePoint) : Text → Option Nat
  | [] => none
  | c :: rest =>
    if c = quote then some 1
    else if c = '\n' then none
    else if c = '\\' then
      match rest with
      | [] => none
      | _ :: more => (closeString? quote more).map (· + 2)
    else (closeString? quote rest).map (· + 1)

/-- What is open inside a template literal. -/
inductive Frame where
  /-- Template text, up to the next back quote. -/
  | template
  /-- A substitution, with its count of open braces. -/
  | substitution (depth : Nat)
  /-- A string in a substitution, with its quote and its distance from the start. -/
  | string (quote : CodePoint) (start : Nat)
deriving DecidableEq

/-- The fault of a text that ends while a frame is open. -/
def Frame.fault : Frame → FaultAt
  | .template => ⟨.unterminatedTemplate, 0⟩
  | .substitution _ => ⟨.unterminatedSubstitution, 0⟩
  | .string _ start => ⟨.unterminatedString, start⟩

/-- The distance at which the outermost frame closes, `n` code points having been read; `frame` is
the innermost frame and `outer` holds those around it. -/
def closeFrames (frame : Frame) (outer : List Frame) (n : Nat) : Text → Except FaultAt Nat
  | [] => .error frame.fault
  | c :: rest =>
    match frame with
    | .template =>
      if c = '\\' then
        match rest with
        | [] => .error frame.fault
        | _ :: more => closeFrames frame outer (n + 2) more
      else if c.val = 0x60 then
        match outer with
        | [] => .ok (n + 1)
        | next :: others => closeFrames next others (n + 1) rest
      else if c = '$' then
        match rest with
        | [] => .error frame.fault
        | d :: more =>
          if d.val = 0x7B then closeFrames (.substitution 1) (frame :: outer) (n + 2) more
          else closeFrames frame outer (n + 1) (d :: more)
      else closeFrames frame outer (n + 1) rest
    | .substitution depth =>
      if c = '\'' || c = '"' then closeFrames (.string c n) (frame :: outer) (n + 1) rest
      else if c.val = 0x60 then closeFrames .template (frame :: outer) (n + 1) rest
      else if c.val = 0x7B then closeFrames (.substitution (depth + 1)) outer (n + 1) rest
      else if c.val = 0x7D then
        if depth ≤ 1 then
          match outer with
          | [] => .ok (n + 1)
          | next :: others => closeFrames next others (n + 1) rest
        else closeFrames (.substitution (depth - 1)) outer (n + 1) rest
      else closeFrames frame outer (n + 1) rest
    | .string quote _ =>
      if c = quote then
        match outer with
        | [] => .ok (n + 1)
        | next :: others => closeFrames next others (n + 1) rest
      else if c = '\n' then .error frame.fault
      else if c = '\\' then
        match rest with
        | [] => .error frame.fault
        | _ :: more => closeFrames frame outer (n + 2) more
      else closeFrames frame outer (n + 1) rest

/-- The length of the flags that a text begins with. -/
def regexFlags (t : Text) : Nat := (t.takeWhile CodePoint.isWord).length

/-- The length of what follows an opening slash, through the closing one and the flags. A slash in
a bracketed class does not close, and a backslash takes the next code point along. -/
def closeRegex? (inClass : Bool) : Text → Option Nat
  | [] => none
  | c :: rest =>
    if c = '\n' then none
    else if c = '\\' then
      match rest with
      | [] => none
      | _ :: more => (closeRegex? inClass more).map (· + 2)
    else if c = '/' && !inClass then some (1 + regexFlags rest)
    else
      let inClass := if c = '[' then true else if c = ']' then false else inClass
      (closeRegex? inClass rest).map (· + 1)

/-! ## Numerals -/

/-- A digit or an underscore, as they follow the first digit of a numeral. -/
def isDigitPart (c : CodePoint) : Bool := c.isDecimal || c = '_'

/-- The length of a digit and the digits and underscores after it; zero if there is none. -/
def digitRun (t : Text) : Nat :=
  match t with
  | [] => 0
  | c :: rest => if c.isDecimal then 1 + (rest.takeWhile isDigitPart).length else 0

/-- The length of a prefix and the digits after it; zero if there are none. -/
def prefixedRun (t : Text) (isPart : CodePoint → Bool) : Nat :=
  match ((t.drop 2).takeWhile isPart).length with
  | 0 => 0
  | n => n + 2

/-- The length of a numeral in the base its prefix announces; zero if no digit follows. -/
def prefixedLength (t : Text) : Nat :=
  let run := prefixedRun t
  match t with
  | zero :: mark :: _ =>
    if zero ≠ '0' then 0
    else if mark = 'x' || mark = 'X' then run fun c => c.isHexDigit || c = '_'
    else if mark = 'o' || mark = 'O' then run fun c => (0x30 ≤ c.val && c.val ≤ 0x37) || c = '_'
    else if mark = 'b' || mark = 'B' then run fun c => c = '0' || c = '1' || c = '_'
    else 0
  | _ => 0

/-- The length of digits with or without a point; zero if the text starts with neither. -/
def mantissaLength (t : Text) : Nat :=
  let point (u : Text) : Bool := u.head? = some ('.' : CodePoint)
  match digitRun t with
  | 0 =>
    if point t then
      match digitRun (t.drop 1) with
      | 0 => 0
      | n => n + 1
    else 0
  | n =>
    if point (t.drop n) then n + 1 + ((t.drop (n + 1)).takeWhile isDigitPart).length else n

/-- The length of an exponent; zero if there is none. -/
def exponentLength (t : Text) : Nat :=
  match t with
  | [] => 0
  | c :: rest =>
    if c = 'e' || c = 'E' then
      let sign := match rest with
        | [] => 0
        | d :: _ => if d = '+' || d = '-' then 1 else 0
      match digitRun (rest.drop sign) with
      | 0 => 0
      | n => n + sign + 1
    else 0

/-- The length of the numeral that a text begins with; zero if there is none. -/
def numeralLength (t : Text) : Nat :=
  let bare :=
    match prefixedLength t with
    | 0 =>
      match mantissaLength t with
      | 0 => 0
      | n => n + exponentLength (t.drop n)
    | n => n
  if bare = 0 then 0
  else if (t.drop bare).head? = some ('n' : CodePoint) then bare + 1 else bare

/-! ## The next lexeme -/

def isNameStart (c : CodePoint) : Bool :=
  (c.isWord && !c.isDecimal) || c = '$' || c = '#'

/-- What a name may go on with. -/
def isNamePart (c : CodePoint) : Bool := c.isWord || c = '$'

/-- Kind and length of a lexeme. -/
structure Cut where
  kind : LexemeKind
  length : Nat
deriving DecidableEq

/-- A numeral starts with a digit, or with a point and a digit. -/
def startsNumeral (t : Text) : Bool :=
  match t with
  | [] => false
  | c :: rest => c.isDigit || (c = '.' && (rest.head?.map CodePoint.isDigit).getD false)

/-- The punctuator that a text begins with: the longest one, except that a question mark and a
numeral with a point are no optional access. -/
def punctuator? (t : Text) : Option Punctuator :=
  (Punctuator.longest? t).map fun p =>
    if p = .optionalChain && ((t.drop 2).head?.map CodePoint.isDigit).getD false then .question
    else p

/-- The lexeme that the text `c :: rest` begins with. -/
def cut (regexAllowed : Bool) (c : CodePoint) (rest : Text) : Except FaultAt Cut :=
  if c = '\'' || c = '"' then
    match closeString? c rest with
    | none => .error ⟨.unterminatedString, 0⟩
    | some n => .ok ⟨.string, n + 1⟩
  else if c.val = 0x60 then (closeFrames .template [] 1 rest).map fun n => ⟨.template, n⟩
  else if c = '/' && regexAllowed then
    match closeRegex? false rest with
    | none => .error ⟨.unterminatedRegex, 0⟩
    | some n => .ok ⟨.regex, n + 1⟩
  else if startsNumeral (c :: rest) then
    match numeralLength (c :: rest) with
    | 0 => .error ⟨.strayDigit, 0⟩
    | n => .ok ⟨.number, n⟩
  else if isNameStart c then .ok ⟨.name, 1 + (rest.takeWhile isNamePart).length⟩
  else
    match punctuator? (c :: rest) with
    | some p => .ok ⟨.punctuator p, p.text.length⟩
    | none => .error ⟨.unexpectedCharacter c, 0⟩

/-! ## The whole text -/

/-- A fault and its position in the whole text. A fault inside a lexeme is placed by its distance
on the line where the lexeme starts. -/
structure Stop where
  fault : ScanFault
  position : Position
deriving DecidableEq

/-- The lexemes of the rest of a text, at most `fuel` of them, where `offset` and `position` tell
where the rest begins and `previous` is the lexeme before it. -/
def lexemes (fuel offset : Nat) (position : Position) (previous : Option Lexeme) (t : Text) :
    Except Stop (List Lexeme) :=
  match fuel with
  | 0 => .ok []
  | fuel + 1 =>
    match gap (offset = 0) (t.length + 1) t with
    | .error f => .error ⟨f.fault, position.advance (t.take f.distance)⟩
    | .ok g =>
      let start := position.advance (t.take g.length)
      match t.drop g.length with
      | [] => .ok []
      | c :: rest =>
        let regexAllowed := (previous.map Lexeme.precedesRegex).getD true
        match cut regexAllowed c rest with
        | .error f => .error ⟨f.fault, start.onLine f.distance⟩
        | .ok found =>
          let lexeme : Lexeme :=
            ⟨found.kind, (c :: rest).take found.length, offset + g.length, start, g.lineBreak⟩
          (lexemes fuel lexeme.endOffset lexeme.finish (some lexeme)
            ((c :: rest).drop found.length)).map (lexeme :: ·)

end Scanner

def Lexeme.scan (source : Text) : Except Scanner.Stop (List Lexeme) :=
  Scanner.lexemes (source.length + 1) 0 .start none source

end ModuleLowering
