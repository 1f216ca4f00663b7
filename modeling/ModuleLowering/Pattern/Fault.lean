import ModuleLowering.Text.Quoted

/-!
# Faults of patterns

Why a text is no pattern, with the wording of each fault.
-/

set_option autoImplicit false

namespace ModuleLowering.Pattern

/-- What is wrong with the text of a pattern. -/
inductive Fault where
  | escapeAtEnd
  | incompleteEscape (escape : Text)
  | badEscape (escape : Text)
  | octalOutOfRange (escape : Text)
  | missingBrace
  | missingName (what : Text)
  | unterminatedName (terminator : Text)
  | undefinedCharacterName (name : Text)
  | openGroup
  | groupOfSameLookbehind
  | invalidGroupReference (number : Nat)
  | unterminatedSet
  | badRange (low high : Text)
  | leastAboveMost
  | nothingToRepeat
  | multipleRepeat
  | unexpectedEnd
  | unknownExtension (extension : Text)
  | badGroupName (name : Text)
  | unknownGroupName (name : Text)
  | redefinedGroup (name : Text) (number earlier : Nat)
  | badGroupNumber
  | tooManyBranches
  | unterminatedComment
  | unterminatedGroup
  | unbalanced
  | flagsNotAtStart
  | localeFlag
  | clashingFlags
  | unknownFlag
  | missingFlag
  | missingFlagEnd
  | missingColon
  | globalFlagOn
  | globalFlagOff
  | classFlagOff
  | flagOnAndOff
  | openWidthLookbehind
  | longLookbehind
  | repeatInTemplate (kind : Text)
deriving DecidableEq

namespace Fault

/-- The message of a fault, without its position. -/
def message : Fault → Text
  | escapeAtEnd => "bad escape (end of pattern)"
  | incompleteEscape escape => "incomplete escape " ++ escape
  | badEscape escape => "bad escape " ++ escape
  | octalOutOfRange escape => "octal escape value " ++ escape ++ " outside of range 0-0o377"
  | missingBrace => "missing \x7b"
  | missingName what => "missing " ++ what
  | unterminatedName terminator => "missing " ++ terminator ++ ", unterminated name"
  | undefinedCharacterName name => "undefined character name " ++ name.shown
  | openGroup => "cannot refer to an open group"
  | groupOfSameLookbehind => "cannot refer to group defined in the same lookbehind subpattern"
  | invalidGroupReference number => "invalid group reference " ++ Text.ofNat number
  | unterminatedSet => "unterminated character set"
  | badRange low high => "bad character range " ++ low ++ "-" ++ high
  | leastAboveMost => "min repeat greater than max repeat"
  | nothingToRepeat => "nothing to repeat"
  | multipleRepeat => "multiple repeat"
  | unexpectedEnd => "unexpected end of pattern"
  | unknownExtension extension => "unknown extension ?" ++ extension
  | badGroupName name => "bad character in group name " ++ name.shown
  | unknownGroupName name => "unknown group name " ++ name.shown
  | redefinedGroup name number earlier =>
    "redefinition of group name " ++ name.shown ++ " as group " ++ Text.ofNat number ++
      "; was group " ++ Text.ofNat earlier
  | badGroupNumber => "bad group number"
  | tooManyBranches => "conditional backref with more than two branches"
  | unterminatedComment => "missing ), unterminated comment"
  | unterminatedGroup => "missing ), unterminated subpattern"
  | unbalanced => "unbalanced parenthesis"
  | flagsNotAtStart => "global flags not at the start of the expression"
  | localeFlag => "bad inline flags: cannot use 'L' flag with a str pattern"
  | clashingFlags => "bad inline flags: flags 'a', 'u' and 'L' are incompatible"
  | unknownFlag => "unknown flag"
  | missingFlag => "missing flag"
  | missingFlagEnd => "missing -, : or )"
  | missingColon => "missing :"
  | globalFlagOn => "bad inline flags: cannot turn on global flag"
  | globalFlagOff => "bad inline flags: cannot turn off global flag"
  | classFlagOff => "bad inline flags: cannot turn off flags 'a', 'u' and 'L'"
  | flagOnAndOff => "bad inline flags: flag turned on and off"
  | openWidthLookbehind => "look-behind requires fixed-width pattern"
  | longLookbehind => "looks too much behind"
  | repeatInTemplate kind => "internal: unsupported template operator " ++ kind

end Fault

/-- Why a text is no pattern. -/
inductive Rejection where
  /-- A fault, and where it is in the text, if that is known. -/
  | fault (f : Fault) (offset : Option Nat)
  /-- An escape with a number that fits no signed word. -/
  | pointBeyondWord
  /-- A repetition with a count that is out of range. -/
  | countOutOfRange
  /-- A repetition with a count that has too many digits. -/
  | countTooLong
  /-- The whole pattern asks for ASCII classes and for all of them. -/
  | clashingClasses
deriving DecidableEq

namespace Rejection

/-- The line and column of an offset, for a text of several lines. -/
def lineNote (source : Text) (offset : Nat) : Text :=
  let before := source.take offset
  let isBreak (c : CodePoint) : Bool := c = '\n'
  if source.any isBreak then
    let line := (before.filter isBreak).length + 1
    let column := (before.reverse.takeWhile fun c => !isBreak c).length + 1
    " (line " ++ Text.ofNat line ++ ", column " ++ Text.ofNat column ++ ")"
  else []

/-- What to say about a rejected text. There is nothing to say about numbers out of range and
clashes. -/
def message? (source : Text) : Rejection → Option Text
  | fault f none => some f.message
  | fault f (some offset) =>
    some (f.message ++ " at position " ++ Text.ofNat offset ++ lineNote source offset)
  | pointBeyondWord | countOutOfRange | countTooLong | clashingClasses => none

end Rejection

end ModuleLowering.Pattern
