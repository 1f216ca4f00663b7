import ModuleLowering.Syntax.Shape
import ModuleLowering.Token.Terminal

/-!
# Parsers

A parser reads tokens from the front of a list. It fails with the tokens at whose front no rule can
go on, so the offending token is the first of them, or the end if there is none. A parser answers
with what is to be built, not with the tree itself: shape errors come after every grammar error.

The rules of the grammar refer to each other. A rule is given the parsers for what lies deeper in
the text as a record, and takes at least one token before it uses them.
-/

set_option autoImplicit false

namespace ModuleLowering

/-- Reads tokens, or fails with the tokens that cannot be read. -/
abbrev Parser (α : Type) := StateT (List Token) (Except (List Token)) α

namespace Parser

variable {α : Type}

/-- Fails at the next token. -/
def fail : Parser α := do throw (← get)

/-- The next terminal; nothing at the end. -/
def look : Parser (Option Terminal) := return (← get).head?.map Token.terminal

/-- The terminal after the next one. -/
def lookFurther : Parser (Option Terminal) := return (← get).tail.head?.map Token.terminal

/-- The position of the next token. -/
def place : Parser (Option Position) := return (← get).head?.map Token.start

/-- How many tokens are left. -/
def left : Parser Nat := return (← get).length

/-- Reads the next token if its terminal passes the test. -/
def takeIf (test : Terminal → Bool) : Parser Token := do
  match ← get with
  | token :: rest =>
    if test token.terminal then
      set rest
      return token
    else fail
  | [] => fail

def take (t : Terminal) : Parser Token := takeIf (· = t)

def punctuator (p : Punctuator) : Parser Unit := discard (take (.punctuator p))

def word (w : Word) : Parser Unit := discard (take (.word w))

/-- Reads the end of a statement. -/
def terminator : Parser Unit := discard (take .terminator)

/-- Reads a terminal if it comes next, and tells whether it did. -/
def taken (t : Terminal) : Parser Bool := do
  if (← look) = some t then
    discard (take t)
    return true
  else return false

/-- The items after the first one of a list that `close` ends; a comma may come before the end. -/
def moreItems (item : Parser α) (close : Terminal) : Nat → Parser (List α)
  | 0 => fail
  | fuel + 1 => do
    if ← taken close then return []
    punctuator .comma
    if ← taken close then return []
    let a ← item
    return a :: (← moreItems item close fuel)

/-- A list of items between commas, up to and including `close`. -/
def items (item : Parser α) (close : Terminal) : Parser (List α) := do
  if ← taken close then return []
  let a ← item
  return a :: (← moreItems item close ((← left) + 1))

/-- One or more items between commas, the first one having been read. -/
def moreParts (item : Parser α) : Nat → Parser (List α)
  | 0 => fail
  | fuel + 1 => do
    if ← taken (.punctuator .comma) then
      let a ← item
      return a :: (← moreParts item fuel)
    else return []

/-- One or more items between commas. -/
def parts (item : Parser α) : Parser (List α) := do
  let a ← item
  return a :: (← moreParts item ((← left) + 1))

/-- Items up to a terminal, which is not read. -/
def manyUntil (item : Parser α) (stop : Option Terminal → Bool) : Nat → Parser (List α)
  | 0 => fail
  | fuel + 1 => do
    if stop (← look) then return []
    let a ← item
    return a :: (← manyUntil item stop fuel)

/-- Items up to and including `close`. -/
def itemsUntil (item : Parser α) (close : Terminal) : Parser (List α) := do
  let all ← manyUntil item (· = some close) ((← left) + 1)
  discard (take close)
  return all

end Parser

/-- An expression that is built, and the parameters that it would stand for before an arrow; only a
name alone and an expression in parentheses have any. -/
structure Operand where
  node : Shaped Node
  parameters : Option (Shaped (List Node)) := none

namespace Operand

/-- An expression that is no parameter list. -/
def plain (node : Shaped Node) : Operand := ⟨node, none⟩

end Operand

/-- What follows `new`: an expression, and whether members and calls may follow it. -/
structure Construction where
  node : Shaped Node
  extensible : Bool

/-- The parsers for what lies deeper in the text. -/
structure Deeper where
  assignment : Parser (Shaped Node)
  exponent : Parser (Shaped Node)
  unary : Parser (Shaped Node)
  leftHandSide : Parser (Shaped Node)
  construction : Parser Construction
  binding : Parser (Shaped Node)
  statement : Parser (Shaped Node)

namespace Deeper

/-- Nothing lies deeper. -/
def nothing : Deeper :=
  ⟨Parser.fail, Parser.fail, Parser.fail, Parser.fail, Parser.fail, Parser.fail, Parser.fail⟩

end Deeper

namespace Terminal

def isName : Terminal → Bool
  | .name => true
  | .word w => w.isContextual
  | _ => false

/-- What the name of a property starts with. -/
def startsPropertyName (t : Terminal) : Bool :=
  t.isName || t = .string || t = .number || t = .punctuator .leftBracket

/-- The words that are operators before an operand. -/
def isPrefixWord (w : Word) : Bool := [Word.kwTypeof, .kwVoid, .kwDelete].contains w

/-- Operators before an operand. -/
def isUnaryOperator : Terminal → Bool
  | .punctuator p => [Punctuator.bang, .minus, .plus, .tilde].contains p
  | .word w => isPrefixWord w
  | _ => false

/-- The operators that count up or down. -/
def isUpdateOperator : Terminal → Bool
  | .punctuator p => [Punctuator.increment, .decrement].contains p
  | _ => false

def isAssignmentOperator : Terminal → Bool
  | .punctuator p =>
    [Punctuator.assign, .plusAssign, .minusAssign, .starAssign, .slashAssign, .percentAssign,
      .powerAssign, .shiftLeftAssign, .shiftRightAssign, .shiftRightZeroAssign, .andAssign,
      .orAssign, .xorAssign, .logicalAndAssign, .logicalOrAssign, .nullishAssign].contains p
  | _ => false

/-- What an expression starts with. -/
def startsExpression (t : Terminal) : Bool :=
  t.isName || t.isUnaryOperator || t.isUpdateOperator ||
    match t with
    | .number | .string | .template | .regex | .objectBrace => true
    | .punctuator p => p = .leftParen || p = .leftBracket
    | .word w =>
      [Word.kwTrue, .kwFalse, .kwNull, .kwThis, .kwSuper, .kwImport, .kwNew, .kwFunction, .kwClass,
        .kwAsync, .kwAwait, .kwYield].contains w
    | _ => false

/-- What the declaration of variables starts with. -/
def declaresVariables : Terminal → Bool
  | .word w => [Word.kwVar, .kwLet, .kwConst].contains w
  | _ => false

end Terminal

end ModuleLowering
