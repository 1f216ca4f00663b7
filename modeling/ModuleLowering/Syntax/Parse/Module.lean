import ModuleLowering.Syntax.Parse.Item
import ModuleLowering.Token.Scanner
import ModuleLowering.Token.Terminator

/-!
# Modules

From the text of a module to its tree. The whole text is cut into lexemes first. Tokens then go to
the grammar one after the other, so that an error of the grammar comes before a bracket fault that
lies behind it, and the tree is built when every token has been read.
-/

set_option autoImplicit false

namespace ModuleLowering

/-- Why a text is no module. -/
inductive ParseError where
  | lexeme (fault : ScanFault) (place : Position)
  | bracket (fault : BracketFault) (place : Position)
  /-- A token that no rule can go on with; no terminal at the end of the text. -/
  | unexpected (terminal : Option Terminal) (text : Text) (place : Position)
  | shape (e : ShapeError) (place : Option Position)
  /-- A numeral without a value. -/
  | numeral
  /-- A string literal with an escape that stands for nothing. -/
  | escape (fault : EscapeFault)
deriving DecidableEq

/-- A message and the place it is about. -/
structure Complaint where
  message : Text
  place : Option Position
deriving DecidableEq

namespace ParseError

/-- The message about a token that no rule can go on with. -/
def unexpectedMessage (terminal : Option Terminal) (text : Text) (place : Position) : Text :=
  let name := ((terminal.map Terminal.terminalName).getD "$END" : String)
  "Unexpected token Token(" ++ Text.shown name ++ ", " ++ text.shown ++ ") at line " ++
    Text.ofNat place.line ++ ", column " ++ Text.ofNat place.column ++ "."

/-- What to say about an error. There is nothing to say about literals without a value. -/
def complaint? : ParseError → Option Complaint
  | lexeme fault place => fault.message?.map (⟨·, some place⟩)
  | bracket fault place => some ⟨fault.message, some place⟩
  | unexpected terminal text place =>
    some ⟨unexpectedMessage terminal text place, some place⟩
  | shape e place => some ⟨e.message, place⟩
  | numeral | escape _ => none

/-- The error that a fault of the tree stands for. -/
def ofShapeFault : ShapeFault → ParseError
  | .error e place => shape e place
  | .numeral => numeral
  | .escape fault => escape fault

end ParseError

/-- What the grammar makes of a stream. -/
def TokenStream.items (stream : TokenStream) : Except ParseError (List (Shaped Node)) :=
  let tokens := stream.tokens
  match (Parser.moduleItems (Deeper.within (tokens.length + 1))).run tokens, stream.stop with
  | .error (token :: _), _ => .error (.unexpected (some token.terminal) token.text token.start)
  | .error [], some stop => .error (.bracket stop.fault stop.position)
  | .error [], none =>
    let place := (tokens.getLast?.map Token.start).getD .start
    .error (.unexpected none [] place)
  | .ok _, some stop => .error (.bracket stop.fault stop.position)
  | .ok (items, _), none => .ok items

/-- The module that a text spells. -/
def Node.ofSource (source : Text) : Except ParseError Node := do
  let lexemes ←
    match Lexeme.scan source with
    | .ok lexemes => .ok lexemes
    | .error stop => .error (.lexeme stop.fault stop.position)
  let items ← (TokenStream.ofLexemes lexemes).items
  match Parser.inOrder items with
  | .ok body => return .mk (some .start) (.program body)
  | .error fault => throw (.ofShapeFault fault)

end ModuleLowering
