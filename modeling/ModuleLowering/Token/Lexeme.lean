import ModuleLowering.Token.Position
import ModuleLowering.Token.Punctuator
import ModuleLowering.Token.Word

/-!
# Lexemes

A lexeme is a piece of a module text with a kind, a place and a note of whether a line break comes
before it. Where it ends follows from its text.
-/

set_option autoImplicit false

namespace ModuleLowering

/-- The kind of a lexeme. -/
inductive LexemeKind where
  | name
  | number
  | string
  | template
  | regex
  | punctuator (p : Punctuator)
deriving DecidableEq, Inhabited

/-- A piece of a module text. -/
structure Lexeme where
  kind : LexemeKind
  text : Text
  offset : Nat
  start : Position
  lineBreakBefore : Bool
deriving Inhabited

namespace Lexeme

def endOffset (l : Lexeme) : Nat := l.offset + l.text.length

def finish (l : Lexeme) : Position := l.start.advance l.text

def punctuator? (l : Lexeme) : Option Punctuator :=
  match l.kind with
  | .punctuator p => some p
  | _ => none

/-- Whether a slash after the lexeme starts a regular expression rather than a division. -/
def precedesRegex (l : Lexeme) : Bool :=
  match l.kind with
  | .name =>
    match Word.ofText? l.text with
    | some w => w.precedesRegex
    | none => false
  | .punctuator p =>
    !(List.contains [.rightParen, .rightBracket, .rightBrace, .increment, .decrement] p)
  | _ => false

end Lexeme

end ModuleLowering
