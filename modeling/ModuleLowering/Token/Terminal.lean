import ModuleLowering.Token.Position
import ModuleLowering.Token.Punctuator
import ModuleLowering.Token.Word

/-!
# Terminals and tokens

The terminals of the grammar of modules, and tokens: terminals with their text and place. Besides
names, literals, words and punctuators there are four terminals that the place of a lexeme decides:
the end of a statement, the brace of an object, and `function` and `class` at the start of a
declaration.
-/

set_option autoImplicit false

namespace ModuleLowering

/-- A terminal of the grammar. -/
inductive Terminal where
  | terminator
  | objectBrace
  | functionDeclaration
  | classDeclaration
  | name
  | number
  | string
  | template
  | regex
  | word (w : Word)
  | punctuator (p : Punctuator)
deriving DecidableEq, Inhabited

namespace Terminal

/-- The name of a terminal in messages about the grammar. -/
def terminalName : Terminal → String
  | terminator => "_TERM"
  | objectBrace => "_OBJ_OPEN"
  | functionDeclaration => "_FUNCTION_DECL"
  | classDeclaration => "_CLASS_DECL"
  | name => "NAME"
  | number => "NUMBER"
  | string => "STRING"
  | template => "TEMPLATE"
  | regex => "REGEX"
  | word w => w.terminalName
  | punctuator p => p.terminalName

end Terminal

/-- A terminal with its text and place. An inserted token stands for no lexeme. -/
structure Token where
  terminal : Terminal
  text : Text
  offset : Nat
  start : Position
  endOffset : Nat
  finish : Position
  inserted : Bool
deriving Inhabited

end ModuleLowering
