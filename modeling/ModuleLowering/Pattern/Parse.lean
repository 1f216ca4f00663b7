import ModuleLowering.Number.Numeral
import ModuleLowering.Pattern.Fault
import ModuleLowering.Pattern.Item

/-!
# Reading patterns

From the text of a pattern to its parts. The text is read piece by piece, a piece being a code point
or a backslash with the code point after it, and always one piece ahead: a single backslash at the
end is found as soon as everything before it has been read.
-/

set_option autoImplicit false

namespace ModuleLowering.Pattern

/-- What the reader of a pattern knows. -/
structure Progress where
  /-- The length of the whole text. -/
  length : Nat
  /-- The text from the next piece on. -/
  rest : Text
  names : List (Text × Nat) := []
  /-- The widths of the groups by number; a group that is open has none, nor has the whole. -/
  widths : List (Option Width) := [none]
  /-- The number of groups at the start of the outermost lookbehind that is open. -/
  lookbehind : Option Nat := none
  /-- The groups that conditions name by number, and where. -/
  conditions : List (Nat × Nat) := []
  /-- The flags of the whole pattern. -/
  flags : List Flag := []

/-- Reads a part of a pattern. -/
abbrev Reader (α : Type) := StateT Progress (Except Rejection) α

namespace Reader

variable {α : Type}

/-! ## Pieces -/

/-- The piece that a text begins with; empty at the end. -/
def pieceOf (t : Text) : Text :=
  match t with
  | [] => []
  | c :: _ => if c = '\\' then t.take 2 else [c]

/-- The next piece; empty at the end. -/
def peek : Reader Text := return pieceOf (← get).rest

/-- The offset of the next piece. -/
def tell : Reader Nat := do
  let s ← get
  return s.length - s.rest.length

def failAt (f : Fault) (offset : Nat) : Reader α := throw (.fault f (some offset))

/-- Fails `back` code points before the next piece. -/
def fail (f : Fault) (back : Nat) : Reader α := do failAt f ((← tell) - back)

/-- Goes on with a text, which may not be a single backslash. -/
def moveTo (rest : Text) : Reader Unit := do
  let backslash : Text := "\\"
  if rest = backslash then failAt .escapeAtEnd ((← get).length - 1)
  modify fun s => { s with rest := rest }

/-- Reads the next piece; empty at the end. -/
def take : Reader Text := do
  let piece ← peek
  moveTo ((← get).rest.drop piece.length)
  return piece

/-- Reads a piece if it comes next, and tells whether it did. -/
def taken (piece : Text) : Reader Bool := do
  if (← peek) = piece then
    discard take
    return true
  else return false

def single? (piece : Text) : Option CodePoint :=
  match piece with
  | [c] => some c
  | _ => none

def isSingle (test : CodePoint → Bool) (piece : Text) : Bool :=
  match piece with
  | [c] => test c
  | _ => false

/-- Reads at most `count` pieces that pass the test. -/
def takeWhile (test : CodePoint → Bool) : Nat → Reader Text
  | 0 => return []
  | count + 1 => do
    let piece ← peek
    if isSingle test piece then
      discard take
      return piece ++ (← takeWhile test count)
    else return []

/-- Reads a name up to and including its terminator, `fuel` pieces at most. -/
def takeName (terminator what : Text) : Nat → Text → Reader Text
  | 0, _ => fail (.missingName what) 0
  | fuel + 1, name => do
    let piece ← take
    if piece.isEmpty then
      if name.isEmpty then fail (.missingName what) 0
      else fail (.unterminatedName terminator) name.length
    if piece = terminator then
      if name.isEmpty then fail (.missingName what) 1
      return name
    takeName terminator what fuel (name ++ piece)

/-- Reads a name up to and including its terminator. -/
def nameUntil (terminator what : Text) : Reader Text := do
  takeName terminator what ((← get).rest.length + 1) []

/-! ## Escapes -/

/-- The control codes that a letter after a backslash stands for. -/
def control? (c : CodePoint) : Option Nat :=
  if c = 'a' then some 0x07
  else if c = 'b' then some 0x08
  else if c = 'f' then some 0x0C
  else if c = 'n' then some 0x0A
  else if c = 'r' then some 0x0D
  else if c = 't' then some 0x09
  else if c = 'v' then some 0x0B
  else if c = '\\' then some 0x5C
  else none

/-- The class that a letter after a backslash stands for, and whether it is negated. -/
def category? (c : CodePoint) : Option (Category × Bool) :=
  if c = 'd' then some (.digit, false)
  else if c = 'D' then some (.digit, true)
  else if c = 's' then some (.space, false)
  else if c = 'S' then some (.space, true)
  else if c = 'w' then some (.word, false)
  else if c = 'W' then some (.word, true)
  else none

/-- The place that a letter after a backslash stands for. -/
def anchor? (c : CodePoint) : Option Anchor :=
  if c = 'A' then some .textStart
  else if c = 'Z' then some .textEnd
  else if c = 'b' then some .boundary
  else if c = 'B' then some .noBoundary
  else none

def isOctal (c : CodePoint) : Bool := 0x30 ≤ c.val && c.val ≤ 0x37

def spelled (base : Nat) (digits : Text) : Nat := (Numeral.natOfDigits? base digits).getD 0

/-- The code point of a number that an escape spells out. A number that fits no signed word is a
fault of its own. -/
def pointOf (escape : Text) (n : Nat) : Reader CodePoint :=
  match CodePoint.ofNat? n with
  | some c => return c
  | none => if n < Nat.pow 2 31 then fail (.badEscape escape) escape.length else throw .pointBeyondWord

/-- The rest of an escape with a fixed number of hexadecimal digits. -/
def hexEscape (escape : Text) (count : Nat) : Reader CodePoint := do
  let digits ← takeWhile CodePoint.isHexDigit count
  let escape := escape ++ digits
  if digits.length < count then fail (.incompleteEscape escape) escape.length
  pointOf escape (spelled 16 digits)

/-- The rest of an escape with the name of a character; no names are known. -/
def namedEscape : Reader CodePoint := do
  let brace : Text := "\x7b"
  if !(← taken brace) then fail .missingBrace 0
  let name ← nameUntil "\x7d" "character name"
  fail (.undefinedCharacterName name) (name.length + 4)

def octalEscape (escape : Text) : Reader CodePoint := do
  let n := spelled 8 (escape.drop 1)
  if 0o377 < n then fail (.octalOutOfRange escape) escape.length
  pointOf escape n

/-- The numeric escapes that are the same inside and outside of sets. -/
def numericEscape? (escape : Text) (c : CodePoint) : Option (Reader CodePoint) :=
  if c = 'x' then some (hexEscape escape 2)
  else if c = 'u' then some (hexEscape escape 4)
  else if c = 'U' then some (hexEscape escape 8)
  else if c = 'N' then some namedEscape
  else none

/-- An escape that stands for the code point after the backslash. -/
def plainEscape (escape : Text) (c : CodePoint) : Reader CodePoint := do
  if c.isAsciiLetter || c.isAsciiDigit then fail (.badEscape escape) escape.length
  return c

/-- The code point after the backslash of an escape. -/
def escapedPoint (escape : Text) : CodePoint := (escape.drop 1).head?.getD '\\'

def setEscape (escape : Text) : Reader Member := do
  let c := escapedPoint escape
  match control? c, category? c with
  | some n, _ => return .literal (CodePoint.ofSmall n)
  | none, some (k, negated) => return .category k negated
  | none, none =>
    match numericEscape? escape c with
    | some read => return .literal (← read)
    | none =>
      if isOctal c then
        return .literal (← octalEscape (escape ++ (← takeWhile isOctal 2)))
      return .literal (← plainEscape escape c)

/-- Whether a group has been read to its end. -/
def isClosed (number : Nat) (s : Progress) : Bool := (s.widths[number]?.join).isSome

/-- Checks that a lookbehind may refer to a group. -/
def checkLookbehind (number : Nat) : Reader Unit := do
  let s ← get
  match s.lookbehind with
  | none => return
  | some first =>
    if !isClosed number s then fail .openGroup 0
    if first ≤ number then fail .groupOfSameLookbehind 0

/-- A reference to a group by its number. -/
def reference (escape : Text) : Reader Item := do
  let number := spelled 10 (escape.drop 1)
  let s ← get
  if number < s.widths.length then
    if !isClosed number s then fail .openGroup escape.length
    checkLookbehind number
    return .backreference number
  fail (.invalidGroupReference number) (escape.length - 1)

/-- An escape that starts with a digit other than zero: three octal digits, or a reference. -/
def digitEscape (escape : Text) : Reader Item := do
  let next ← peek
  if isSingle CodePoint.isAsciiDigit next then
    let escape := escape ++ (← take)
    if (escape.drop 1).all isOctal && isSingle isOctal (← peek) then
      return .literal (← octalEscape (escape ++ (← take)))
    reference escape
  else reference escape

/-- An escape outside of sets. -/
def itemEscape (escape : Text) : Reader Item := do
  let c := escapedPoint escape
  match anchor? c, category? c, control? c with
  | some a, _, _ => return .anchor a
  | none, some (k, negated), _ => return .set false [.category k negated]
  | none, none, some n => return .literal (CodePoint.ofSmall n)
  | none, none, none =>
    match numericEscape? escape c with
    | some read => return .literal (← read)
    | none =>
      if c = '0' then return .literal (← octalEscape (escape ++ (← takeWhile isOctal 2)))
      if c.isAsciiDigit then return ← digitEscape escape
      return .literal (← plainEscape escape c)

/-! ## Sets -/

/-- A member of a set from its first piece, before any range. -/
def setPoint (piece : Text) : Reader Member :=
  match single? piece with
  | some c => return .literal c
  | none => setEscape piece

/-- The range between two members of a set. -/
def rangeOf (first second : Text) (low high : Member) : Reader Member := do
  match low, high with
  | .literal l, .literal h =>
    if l.val ≤ h.val then return .range l h
    fail (.badRange first second) (first.length + 1 + second.length)
  | _, _ => fail (.badRange first second) (first.length + 1 + second.length)

/-- The members of a set that are left, up to and including the closing bracket; a bracket that
comes first is a member. -/
def setMembers (start : Nat) : Nat → Bool → Reader (List Member)
  | 0, _ => failAt .unterminatedSet start
  | fuel + 1, isFirst => do
    let piece ← take
    let bracket : Text := "]"
    if piece.isEmpty then failAt .unterminatedSet start
    if piece = bracket && !isFirst then return []
    let low ← setPoint piece
    if ← taken "-" then
      let second ← take
      if second.isEmpty then failAt .unterminatedSet start
      if second = bracket then return [low, .literal '-']
      let high ← setPoint second
      let member ← rangeOf piece second low high
      return member :: (← setMembers start fuel false)
    return low :: (← setMembers start fuel false)

/-- A set after its opening bracket, whose offset is `start`. -/
def setItem (start : Nat) : Reader Item := do
  let negated ← taken "^"
  return .set negated (← setMembers start ((← get).rest.length + 1) true)

/-! ## Repetitions -/

/-- Counts reach up to here. -/
def countLimit : Nat := 4294967295

def countOf (digits : Text) : Reader Nat := do
  if Numeral.maxDecimalDigits < digits.length then throw .countTooLong
  let n := spelled 10 digits
  if countLimit ≤ n then throw .countOutOfRange
  return n

/-- The bounds of a repetition. -/
structure Bounds where
  least : Nat
  most : Option Nat

/-- The bounds between braces after the opening one, if that is what follows; the text after the
brace is `here`. -/
def bracedBounds (here : Nat) : Reader (Option Bounds) := do
  let close : Text := "\x7d"
  let before := (← get).rest
  if (← peek) = close then return none
  let digits := takeWhile CodePoint.isAsciiDigit before.length
  let low ← digits
  let high ← if ← taken "," then digits else pure low
  if !(← taken close) then
    moveTo before
    return none
  let least ← if low.isEmpty then pure 0 else countOf low
  if high.isEmpty then return some ⟨least, none⟩
  let most ← countOf high
  if most < least then failAt .leastAboveMost here
  return some ⟨least, some most⟩

/-- The bounds that a piece after an item stands for, if it repeats the item. -/
def bounds? (piece : Text) : Reader (Option Bounds) := do
  match single? piece with
  | none => return none
  | some c =>
    if c = '?' then return some ⟨0, some 1⟩
    if c = '*' then return some ⟨0, none⟩
    if c = '+' then return some ⟨1, none⟩
    if c.val = 0x7B then return ← bracedBounds (← tell)
    return none

/-- How a repetition chooses, as the piece after it tells. -/
def greed : Reader Greed := do
  if ← taken "?" then return .reluctant
  if ← taken "+" then return .possessive
  return .greedy

/-- Repeats the last of the items, which are given last first; the sign that repeats it stands at
`start`. -/
def repeatLast (start : Nat) (bounds : Bounds) (items : List Item) : Reader (List Item) := do
  match items with
  | [] | .anchor _ :: _ => failAt .nothingToRepeat start
  | .repeated .. :: _ => failAt .multipleRepeat start
  | last :: before =>
    return .repeated (← greed) bounds.least bounds.most [last] :: before

/-! ## Flags -/

def noFlag (piece : Text) (otherwise : Fault) : Fault :=
  if isSingle CodePoint.isLetter piece then .unknownFlag else otherwise

def flagOf? (piece : Text) : Option Flag := (single? piece).bind Flag.ofLetter?

/-- Flags that are turned on, the first of them having been read, and the piece after them. -/
def flagsOn : Nat → Flag → List Flag → Reader (List Flag × Text)
  | 0, _, _ => fail .missingFlagEnd 0
  | fuel + 1, flag, known => do
    if flag = .locale then fail .localeFlag 0
    let all := flag :: known
    if flag.choosesClasses && all.any (fun f => f.choosesClasses && f ≠ flag) then
      fail .clashingFlags 0
    let piece ← take
    if piece.isEmpty then fail .missingFlagEnd 0
    if isSingle (fun c => c = ')' || c = '-' || c = ':') piece then return (all, piece)
    match flagOf? piece with
    | some next => flagsOn fuel next all
    | none => fail (noFlag piece .missingFlagEnd) piece.length

/-- Flags that are turned off, the first of them having been read, through the colon. -/
def flagsOff : Nat → Flag → List Flag → Reader (List Flag)
  | 0, _, _ => fail .missingColon 0
  | fuel + 1, flag, known => do
    if flag.choosesClasses then fail .classFlagOff 0
    let all := flag :: known
    let piece ← take
    if piece.isEmpty then fail .missingColon 0
    if isSingle (fun c => c = ':') piece then return all
    match flagOf? piece with
    | some next => flagsOff fuel next all
    | none => fail (noFlag piece .missingColon) piece.length

/-- The first flag that is turned off, after the minus sign, and all that follow. -/
def flagsAfterMinus : Reader (List Flag) := do
  let piece ← take
  if piece.isEmpty then fail .missingFlag 0
  match flagOf? piece with
  | some flag => flagsOff ((← get).rest.length + 1) flag []
  | none => fail (noFlag piece .missingFlag) piece.length

/-- What flags after a question mark do: they hold for the whole pattern, or are turned on and off
for a group. -/
inductive FlagScope where
  | whole
  | group (on off : List Flag)

/-- Flags after a question mark, the first piece having been read. -/
def flagScope (piece : Text) : Reader FlagScope := do
  let (on, stop) ←
    match flagOf? piece with
    | some flag => flagsOn ((← get).rest.length + 1) flag []
    | none => pure ([], piece)
  if isSingle (fun c => c = ')') stop then
    modify fun s => { s with flags := on ++ s.flags }
    return .whole
  if on.contains .template then fail .globalFlagOn 1
  let off ← if isSingle (fun c => c = '-') stop then flagsAfterMinus else pure []
  if off.contains .template then fail .globalFlagOff 1
  if on.any off.contains then fail .flagOnAndOff 1
  return .group on off

/-! ## Groups -/

/-- Whether a text may name a group: letters, decimal digits and underscores, no digit first. -/
def isGroupName (name : Text) : Bool :=
  let isStart (c : CodePoint) : Bool := c.isLetter || c = '_'
  (name.head?.map isStart).getD false && name.all fun c => isStart c || c.isDecimal

/-- Checks the name of a group, which a terminator follows. -/
def checkName (name : Text) : Reader Unit := do
  if !isGroupName name then fail (.badGroupName name) (name.length + 1)

/-- Opens a group and gives it the next number. -/
def openGroup (name : Option Text) : Reader Nat := do
  let s ← get
  let number := s.widths.length
  modify fun s => { s with widths := s.widths ++ [none] }
  match name with
  | none => return number
  | some name =>
    match (s.names.find? (·.1 = name)).map (·.2) with
    | some earlier => fail (.redefinedGroup name number earlier) (name.length + 1)
    | none =>
      modify fun s => { s with names := (name, number) :: s.names }
      return number

def closeGroup (number : Nat) (body : List Item) : Reader Unit :=
  modify fun s => { s with widths := s.widths.set number (some (width s.widths body)) }

/-- The end of a group that starts at `start`. -/
def groupEnd (start : Nat) : Reader Unit := do
  if !(← taken ")") then failAt .unterminatedGroup start

def namedReference : Reader Item := do
  let name ← nameUntil ")" "group name"
  checkName name
  let s ← get
  match (s.names.find? (·.1 = name)).map (·.2) with
  | none => fail (.unknownGroupName name) (name.length + 1)
  | some number =>
    if !isClosed number s then fail .openGroup (name.length + 1)
    checkLookbehind number
    return .backreference number

/-- A comment after its number sign. -/
def comment (start : Nat) : Nat → Reader Unit
  | 0 => failAt .unterminatedComment start
  | fuel + 1 => do
    let piece ← peek
    if piece.isEmpty then failAt .unterminatedComment start
    discard take
    if isSingle (fun c => c = ')') piece then return
    comment start fuel

/-- Whether underscores stand only between digits. -/
def joinsDigits : Text → Bool
  | c :: d :: rest =>
    (if d = '_' then c.isDecimal && (rest.head?.map CodePoint.isDecimal).getD false else true) &&
      joinsDigits (d :: rest)
  | _ => true

/-- The group number that a condition spells. -/
def conditionNumber? (name : Text) : Option Nat :=
  let body := (Numeral.splitSign (Numeral.trim name)).2
  let digits := name.filter fun (c : CodePoint) => c ≠ '_'
  if body.head? = some ('_' : CodePoint) || !joinsDigits body then none
  else
    match Numeral.int? 10 digits with
    | some (.ofNat n) => some n
    | _ => none

/-- Group numbers lie below this one. -/
def groupLimit : Nat := 1073741823

def conditionGroup : Reader Nat := do
  let name ← nameUntil ")" "group name"
  let back := name.length + 1
  let number ←
    if isGroupName name then
      match ((← get).names.find? (·.1 = name)).map (·.2) with
      | some number => pure number
      | none => fail (.unknownGroupName name) back
    else
      match conditionNumber? name with
      | none => fail (.badGroupName name) back
      | some number =>
        if number = 0 then fail .badGroupNumber back
        if groupLimit ≤ number then fail (.invalidGroupReference number) back
        let place := (← tell) - back
        modify fun s => { s with conditions := s.conditions ++ [(number, place)] }
        pure number
  checkLookbehind number
  return number

/-- Reads something as part of a lookbehind. -/
def insideLookbehind (read : Reader α) : Reader α := do
  let outer := (← get).lookbehind
  if outer.isNone then modify fun s => { s with lookbehind := some s.widths.length }
  let a ← read
  modify fun s => { s with lookbehind := outer }
  return a

/-! ## The whole -/

/-- The readers of what lies inside a group: alternatives, and a sequence alone; each is told
whether blanks and comments are skipped. -/
structure Inner where
  alternatives : Bool → Reader (List Item)
  sequence : Bool → Reader (List Item)

/-- What a parenthesis adds to a sequence: an item, nothing, or flags for the whole pattern. -/
inductive Addition where
  | item (i : Item)
  | nothing
  | flags

/-- The body of a group that starts at `start`. -/
def bodyOf (k : Inner) (start : Nat) (verbose : Bool) : Reader (List Item) := do
  let body ← k.alternatives verbose
  groupEnd start
  return body

/-- A group with a number, and perhaps with a name. -/
def numberedGroup (k : Inner) (start : Nat) (verbose : Bool) (name : Option Text) :
    Reader Addition := do
  let number ← openGroup name
  let body ← bodyOf k start verbose
  closeGroup number body
  return .item (.group (some number) [] [] body)

def lookAround (k : Inner) (start : Nat) (verbose behind negated : Bool) : Reader Addition := do
  let body ← if behind then insideLookbehind (k.alternatives verbose) else k.alternatives verbose
  groupEnd start
  return .item (.look behind negated body)

/-- What follows `(?P`. -/
def namedExtension (k : Inner) (start : Nat) (verbose : Bool) : Reader Addition := do
  if ← taken "<" then
    let name ← nameUntil ">" "group name"
    checkName name
    return ← numberedGroup k start verbose (some name)
  if ← taken "=" then return .item (← namedReference)
  let piece ← take
  if piece.isEmpty then fail .unexpectedEnd 0
  fail (.unknownExtension ("P" ++ piece)) (piece.length + 2)

/-- What follows `(?<`. -/
def behindExtension (k : Inner) (start : Nat) (verbose : Bool) : Reader Addition := do
  let piece ← take
  if piece.isEmpty then fail .unexpectedEnd 0
  if isSingle (fun c => c = '=') piece then return ← lookAround k start verbose true false
  if isSingle (fun c => c = '!') piece then return ← lookAround k start verbose true true
  fail (.unknownExtension ("<" ++ piece)) (piece.length + 2)

/-- What follows `(?(`. -/
def conditionExtension (k : Inner) (start : Nat) (verbose : Bool) : Reader Addition := do
  let number ← conditionGroup
  let yes ← k.sequence verbose
  let bar : Text := "|"
  let no ←
    if ← taken bar then do
      let no ← k.sequence verbose
      if (← peek) = bar then fail .tooManyBranches 0
      pure no
    else pure []
  groupEnd start
  return .item (.conditional number yes no)

/-- Flags after a question mark, and the group that they may open. -/
def flagExtension (k : Inner) (start : Nat) (verbose : Bool) (piece : Text) : Reader Addition := do
  match ← flagScope piece with
  | .whole => return .flags
  | .group on off =>
    let verbose := (verbose || on.contains .verbose) && !off.contains .verbose
    return .item (.group none on off (← bodyOf k start verbose))

/-- What follows `(?`. -/
def extension (k : Inner) (start : Nat) (verbose : Bool) : Reader Addition := do
  let piece ← take
  if piece.isEmpty then fail .unexpectedEnd 0
  let is (c : Char) : Bool := isSingle (fun d => d = c) piece
  if is 'P' then namedExtension k start verbose
  else if is ':' then return .item (.group none [] [] (← bodyOf k start verbose))
  else if is '#' then
    comment start ((← get).rest.length + 1)
    return .nothing
  else if is '=' then lookAround k start verbose false false
  else if is '!' then lookAround k start verbose false true
  else if is '<' then behindExtension k start verbose
  else if is '(' then conditionExtension k start verbose
  else if is '>' then return .item (.atomic (← bodyOf k start verbose))
  else if (flagOf? piece).isSome || is '-' then flagExtension k start verbose piece
  else fail (.unknownExtension piece) (piece.length + 1)

/-- What an opening parenthesis at `start` begins. -/
def parenthesis (k : Inner) (start : Nat) (verbose : Bool) : Reader Addition := do
  if ← taken "?" then extension k start verbose
  else numberedGroup k start verbose none

/-- Skips a comment to the end of its line. -/
def lineComment : Nat → Reader Unit
  | 0 => return
  | fuel + 1 => do
    let piece ← take
    if piece.isEmpty || isSingle (fun c => c = '\n') piece then return
    lineComment fuel

/-- White space that is skipped between items. -/
def isSkipped (c : CodePoint) : Bool := c = ' ' || (0x09 ≤ c.val && c.val ≤ 0x0D)

/-- An item that is a single piece, but for groups and repetitions. -/
def simpleItem (start : Nat) (piece : Text) : Reader Item := do
  match single? piece with
  | none => itemEscape piece
  | some c =>
    if c = '[' then setItem start
    else if c = '.' then return .any
    else if c = '^' then return .anchor .lineStart
    else if c = '$' then return .anchor .lineEnd
    else return .literal c

/-- The items of a sequence that are left, `items` being those before them, last first. Flags for
the whole pattern may stand only where `atStart` holds and nothing has been read. -/
def sequence (k : Inner) (atStart : Bool) : Nat → Bool → List Item → Reader (List Item)
  | 0, _, items => return items.reverse
  | fuel + 1, verbose, items => do
    let start ← tell
    let piece ← peek
    if piece.isEmpty || isSingle (fun c => c = '|' || c = ')') piece then return items.reverse
    discard take
    if verbose && isSingle isSkipped piece then return ← sequence k atStart fuel verbose items
    if verbose && isSingle (fun c => c = '#') piece then
      lineComment ((← get).rest.length + 1)
      return ← sequence k atStart fuel verbose items
    if isSingle (fun c => c = '(') piece then
      match ← parenthesis k start verbose with
      | .item i => sequence k atStart fuel verbose (i :: items)
      | .nothing => sequence k atStart fuel verbose items
      | .flags =>
        if !atStart || !items.isEmpty then failAt .flagsNotAtStart start
        sequence k atStart fuel ((← get).flags.contains .verbose) items
    else
      match ← bounds? piece with
      | some bounds => sequence k atStart fuel verbose (← repeatLast start bounds items)
      | none => sequence k atStart fuel verbose ((← simpleItem start piece) :: items)

def items (k : Inner) (atStart verbose : Bool) : Reader (List Item) := do
  sequence k atStart ((← get).rest.length + 1) verbose []

/-- Alternatives that are left, where the whole pattern is their sum if `whole` holds. -/
def moreAlternatives (k : Inner) (whole : Bool) : Nat → Bool → Reader (List (List Item))
  | 0, _ => return []
  | fuel + 1, verbose => do
    if !(← taken "|") then return []
    let s ← get
    let verbose := if whole then s.flags.contains .verbose else verbose
    let found ← items k false verbose
    return found :: (← moreAlternatives k whole fuel verbose)

/-- Alternatives between bars. -/
def alternatives (k : Inner) (whole verbose : Bool) : Reader (List Item) := do
  let first ← items k whole verbose
  let more ← moreAlternatives k whole ((← get).rest.length + 1) verbose
  return if more.isEmpty then first else [.choice (first :: more)]

/-- The readers of what lies at most `fuel` groups deep. -/
def inner : Nat → Inner
  | 0 => ⟨fun _ => return [], fun _ => return []⟩
  | fuel + 1 =>
    let k := inner fuel
    ⟨alternatives k false, items k false⟩

def pattern : Reader (List Item) := do
  let start := (← get).rest
  moveTo start
  let items ← alternatives (inner (start.length + 1)) true false
  let s ← get
  if s.flags.contains .ascii && s.flags.contains .unicode then throw .clashingClasses
  if !(← peek).isEmpty then fail .unbalanced 0
  match s.conditions.find? fun c => s.widths.length ≤ c.1 with
  | some (number, offset) => failAt (.invalidGroupReference number) offset
  | none => return items

end Reader

/-! ## Checks on the whole -/

/-- The kind of a repetition in messages. -/
def Greed.kind : Greed → Text
  | .greedy => "MAX_REPEAT"
  | .reluctant => "MIN_REPEAT"
  | .possessive => "POSSESSIVE_REPEAT"

/-- The fault of a lookbehind over something of a certain width, if it has one. -/
def lookbehindFault? (w : Width) : Option Fault :=
  if Reader.countLimit < w.least then some .longLookbehind
  else if w.least ≠ w.greatest then some .openWidthLookbehind
  else none

mutual

/-- The first fault of a part that shows only in the whole pattern. -/
def Item.fault? (template : Bool) (groups : List (Option Width)) : Item → Option Fault
  | .choice alternatives => choiceFault? template groups alternatives
  | .repeated greed _ _ body =>
    if template then some (.repeatInTemplate greed.kind) else fault? template groups body
  | .group _ _ _ body | .atomic body => fault? template groups body
  | .look behind _ body =>
    (if behind then lookbehindFault? (width groups body) else none).or
      (fault? template groups body)
  | .conditional _ yes no => (fault? template groups yes).or (fault? template groups no)
  | _ => none

/-- The first fault of parts that shows only in the whole pattern. -/
def fault? (template : Bool) (groups : List (Option Width)) : List Item → Option Fault
  | [] => none
  | item :: rest => (item.fault? template groups).or (fault? template groups rest)

/-- The first fault of alternatives that shows only in the whole pattern. -/
def choiceFault? (template : Bool) (groups : List (Option Width)) :
    List (List Item) → Option Fault
  | [] => none
  | first :: rest => (fault? template groups first).or (choiceFault? template groups rest)

end

end Pattern

/-- A pattern for texts: its parts, the widths of its groups by number, and the flags that hold for
the whole. -/
structure Pattern where
  items : List Pattern.Item
  widths : List (Option Pattern.Width)
  flags : List Pattern.Flag

namespace Pattern

def ofText (source : Text) : Except Rejection Pattern := do
  let (items, s) ← Reader.pattern.run { length := source.length, rest := source }
  match fault? (s.flags.contains .template) s.widths items with
  | some f => throw (.fault f none)
  | none => return ⟨items, s.widths, s.flags⟩

end ModuleLowering.Pattern
