import ModuleLowering.Number.Shortest
import ModuleLowering.Syntax.Edge
import ModuleLowering.Text.Class
import ModuleLowering.Text.Quoted

/-!
# Printing

The canonical text of a tree: two blanks of indentation, one statement a line, every semicolon, and
parentheses only where an operand binds less tightly than its place asks for. A literal that was
read keeps its spelling.

A tree is printed bottom up. What a part gives to the node around it is its text as an expression
and its text as a statement, each still to be told where it stands.
-/

set_option autoImplicit false

namespace ModuleLowering

/-- Where an expression stands: how deep the statement around it is indented, and whether `in`
would be taken for that of a loop. -/
structure Setting where
  depth : Nat
  noIn : Bool := false
deriving DecidableEq

/-- A node with its printed parts, and its own text as an expression without parentheses around it
and as a statement. -/
inductive Printed where
  | mk (node : Node) (form : Form Printed) (bare : Setting → Printing Text)
    (statement : Nat → Printing Text)

namespace Printed

def node : Printed → Node
  | mk node _ _ _ => node

def form : Printed → Form Printed
  | mk _ form _ _ => form

/-- The text of the node as an expression, without parentheses around it. -/
def bare : Printed → Setting → Printing Text
  | mk _ _ bare _ => bare

/-- The text of the node as a statement, without its indentation. -/
def statement : Printed → Nat → Printing Text
  | mk _ _ _ statement => statement

end Printed

namespace Print

/-! ## Pieces -/

def indent (depth : Nat) : Text := Text.times depth "  "

def mark (present : Bool) (t : Text) : Text := if present then t else []

def parenthesized (t : Text) : Text := "(" ++ t ++ ")"

/-- Texts with a comma and a blank between each two. -/
def commas (parts : List Text) : Text := Text.join ", " parts

/-- Texts between braces on one line. -/
def inBraces (parts : List Text) : Text :=
  if parts.isEmpty then "\x7b\x7d" else "\x7b " ++ commas parts ++ " \x7d"

/-- Lines between braces, the closing one indented to `depth`. -/
def linesInBraces (depth : Nat) (lines : List Text) : Text :=
  if lines.isEmpty then "\x7b\x7d"
  else "\x7b\n" ++ Text.join "\n" lines ++ "\n" ++ indent depth ++ "\x7d"

/-- A part that has to be there. -/
def required (p : Option Printed) : Printing Printed :=
  match p with
  | some p => .ok p
  | none => .error .missingPart

/-- The name of an identifier that has to be there. -/
def nameOf (p : Option Printed) : Printing Text := do
  match (← required p).node.name? with
  | some name => return name
  | none => throw .missingPart

/-- The text of a literal's value. -/
def valueText : Value → Text
  | .text t => t.quoted
  | .boolean b => if b then "true" else "false"
  | .null => "null"
  | .number (.integer n) => Text.ofInt n
  | .number (.float x) => x.text

/-- The text of a literal that has to be there, as it was spelled if it was read. -/
def literal (p : Option Printed) : Printing Text := do
  match (← required p).form with
  | .literal value raw => return raw.getD (valueText value)
  | .regExpLiteral raw | .templateLiteral raw => return raw
  | _ => throw .missingPart

/-- The name of an import or export: a name, or a string literal. -/
def moduleName (p : Option Printed) : Printing Text := do
  match (← required p).node.name? with
  | some name => return name
  | none => literal p

/-! ## Expressions -/

/-- An expression without parentheses around it. -/
def bare (c : Setting) (p : Option Printed) : Printing Text :=
  match p with
  | some p => p.bare c
  | none => .error (.expression "NoneType")

/-- Whether a node is the operator `in` between two operands. -/
def isIn (n : Node) : Bool :=
  match n.form with
  | .binaryExpression operator _ _ => operator = "in"
  | _ => false

/-- An expression, in parentheses if it binds less tightly than `least`. -/
def expression (c : Setting) (least : Nat) (p : Option Printed) : Printing Text := do
  let text ← bare c p
  match p with
  | none => return text
  | some p =>
    if (← p.node.precedence) < least || (c.noIn && isIn p.node) then return parenthesized text
    return text

/-- An expression where a comma would end it. Patterns are printed alike. -/
def item (c : Setting) (p : Option Printed) : Printing Text := expression c Precedence.assignment p

/-- An expression where a comma may join it to others. -/
def whole (c : Setting) (p : Option Printed) : Printing Text := expression c Precedence.sequence p

/-- Expressions between commas. -/
def items (c : Setting) (parts : List Printed) : Printing Text :=
  return commas (← parts.mapM fun p => item c (some p))

/-- An array; a hole at its end needs a comma of its own. -/
def array (c : Setting) (elements : List (Option Printed)) : Printing Text := do
  let texts ← elements.mapM fun element =>
    match element with
    | none => .ok []
    | some p => item c (some p)
  return "[" ++ commas texts ++ mark (elements.getLast?.any Option.isNone) "," ++ "]"

/-- The name of a property or member. -/
def key (c : Setting) (computed : Bool) (p : Option Printed) : Printing Text := do
  if computed then return "[" ++ (← item c p) ++ "]"
  bare c p

/-! ## Statements between braces -/

def line (depth : Nat) (p : Printed) : Printing Text :=
  return indent depth ++ (← p.statement depth)

/-- The lines of the statements that a node holds. -/
def lines (depth : Nat) (p : Option Printed) : Printing (List Text) := do
  match (← required p).form with
  | .blockStatement body | .program body | .classDeclaration _ _ body
  | .classExpression _ _ body => body.mapM (line depth)
  | _ => throw .missingPart

/-- A block that opens on a line indented to `depth`. -/
def block (depth : Nat) (p : Option Printed) : Printing Text :=
  return linesInBraces depth (← lines (depth + 1) p)

def isBlock (p : Option Printed) : Bool :=
  match p.map Printed.form with
  | some (.blockStatement _) => true
  | _ => false

/-- The statement that a loop or a branch runs: a block stays on the line, an empty statement is a
semicolon, any other one follows on the next line. -/
def body (depth : Nat) (p : Option Printed) : Printing Text := do
  match p.map Printed.form with
  | some (.blockStatement _) => return " " ++ (← block depth p)
  | some .emptyStatement => return ";"
  | _ =>
    match p with
    | some p => return "\n" ++ indent (depth + 1) ++ (← p.statement (depth + 1))
    | none => throw (.statement "NoneType")

/-! ## Functions and methods -/

/-- The marks of a function: whether it is asynchronous, and whether it is a generator. -/
def functionMarks (p : Printed) : Printing (Bool × Bool) :=
  match p.form with
  | .functionExpression _ _ _ isAsync generator
  | .functionDeclaration _ _ _ isAsync generator => .ok (isAsync, generator)
  | _ => .error .missingPart

/-- The parameters and the body of a function. -/
def functionRest (p : Printed) : Printing (List Printed × Option Printed) :=
  match p.form with
  | .functionExpression _ params body _ _ | .functionDeclaration _ params body _ _
  | .arrowFunctionExpression params body _ => .ok (params, body)
  | _ => .error .missingPart

/-- A name with a blank before it, if there is one. -/
def optionalName (id : Option Printed) : Printing Text :=
  match id with
  | none => .ok []
  | some id => return " " ++ (← nameOf (some id))

def function (c : Setting) (depth : Nat) (id : Option Printed) (params : List Printed)
    (body : Option Printed) (isAsync generator : Bool) : Printing Text := do
  let name ← optionalName id
  let params ← items c params
  return mark isAsync "async " ++ "function" ++ mark generator "*" ++ name ++
    parenthesized params ++ " " ++ (← block depth body)

/-- Whether a method reads or writes a property. -/
def isAccessor (kind : Text) : Bool := kind = "get" || kind = "set"

/-- What stands before the name of a method. -/
def methodMarks (kind : Text) (fn : Option Printed) : Printing Text := do
  if isAccessor kind then return kind ++ " "
  let (isAsync, generator) ← functionMarks (← required fn)
  return mark isAsync "async " ++ mark generator "*"

/-- A method of a class or an object. -/
def method (c : Setting) (depth : Nat) (name : Option Printed) (computed : Bool)
    (fn : Option Printed) (kind : Text) : Printing Text := do
  let marks ← methodMarks kind fn
  let name ← key c computed name
  let (params, body) ← functionRest (← required fn)
  let params ← items c params
  return marks ++ name ++ parenthesized params ++ " " ++ (← block depth body)

def arrow (c : Setting) (params : List Printed) (body : Option Printed) (isAsync : Bool) :
    Printing Text := do
  let params ←
    match params.map fun p => p.node.name? with
    | [some name] => .ok name
    | _ => (items c params).map parenthesized
  let head := mark isAsync "async " ++ params ++ " => "
  if isBlock body then return head ++ (← block c.depth body)
  let text ← item c body
  let opensBrace ←
    match body with
    | some p => p.node.startsWith Node.isObject
    | none => .ok false
  return head ++ (if opensBrace then parenthesized text else text)

/-! ## Objects and classes -/

def property (c : Setting) (p : Printed) : Printing Text := do
  match p.form with
  | .spreadElement _ => p.bare c
  | .property name value computed shorthand isMethod kind =>
    if isAccessor kind || isMethod then method c c.depth name computed value kind
    else if shorthand then item c value
    else return (← key c computed name) ++ ": " ++ (← item c value)
  | _ => throw .missingPart

def patternProperty (c : Setting) (p : Printed) : Printing Text := do
  match p.form with
  | .restElement _ => p.bare c
  | .property name value computed shorthand _ _ =>
    if shorthand then item c value
    else return (← key c computed name) ++ ": " ++ (← item c value)
  | _ => throw .missingPart

def classMember (c : Setting) (depth : Nat) (p : Printed) : Printing Text := do
  match p.form with
  | .propertyDefinition name value isStatic computed =>
    let name ← key c computed name
    let value : Text ←
      match value with
      | none => .ok []
      | some value => pure <| " = " ++ (← item c (some value))
    return mark isStatic "static " ++ name ++ value ++ ";"
  | .methodDefinition name value kind isStatic computed =>
    return mark isStatic "static " ++ (← method c depth name computed value kind)
  | _ => throw (.classMember p.node.typeName)

def class_ (c : Setting) (depth : Nat) (id superclass : Option Printed) (members : List Printed) :
    Printing Text := do
  let name ← optionalName id
  let heritage : Text ←
    match superclass with
    | none => .ok []
    | some p => pure <| " extends " ++ (← expression c Precedence.call (some p))
  let members ← members.mapM fun p =>
    return indent (depth + 1) ++ (← classMember c (depth + 1) p)
  return "class" ++ name ++ heritage ++ " " ++ linesInBraces depth members

/-! ## Operators -/

/-- An operator before its operand. Signs that would run together are kept apart. -/
def unary (c : Setting) (operator : Text) (argument : Option Printed) : Printing Text := do
  let operand ← expression c Precedence.unary argument
  let isWord := !operator.isEmpty && operator.all CodePoint.isLetter
  let isSign := operator = "+" || operator = "-"
  if isWord || (isSign && operand.startsWith operator) then return operator ++ " " ++ operand
  return operator ++ operand

/-- An operand; `apart` holds if it needs parentheses whatever its precedence. -/
def operand (c : Setting) (least : Nat) (apart : Bool) (p : Option Printed) : Printing Text :=
  if apart then (bare c p).map parenthesized else expression c least p

/-- Two operands and the operator between them. Operators are grouped from the left, powers from
the right. -/
def binary (c : Setting) (logical : Bool) (operator : Text) (left right : Option Printed) :
    Printing Text := do
  let level ← Precedence.binary operator
  let isPower := operator = "**"
  let apart (p : Option Printed) : Bool :=
    logical && (p.map fun p => Node.mixesNullish operator p.node).getD false
  let left ← operand c (if isPower then level + 1 else level) (apart left) left
  let right ← operand c (if isPower then level else level + 1) (apart right) right
  return left ++ " " ++ operator ++ " " ++ right

/-- A condition with two branches. -/
def conditional (c : Setting) (test consequent alternate : Option Printed) : Printing Text := do
  let test ← expression c Precedence.logicalOr test
  let consequent ← item c consequent
  return test ++ " ? " ++ consequent ++ " : " ++ (← item c alternate)

/-! ## Members and calls -/

/-- Whether a node is a literal with a whole number or a truth value. -/
def isWhole (n : Node) : Bool :=
  match n.form with
  | .literal (.number (.integer _)) _ | .literal (.boolean _) _ => true
  | _ => false

/-- A member of an object. A whole number keeps its distance from the dot. -/
def member (c : Setting) (object name : Option Printed) (computed optional : Bool) :
    Printing Text := do
  let text ← expression c Precedence.call object
  let isNumeral := (object.map fun p => isWhole p.node).getD false &&
    !text.isEmpty && text.all CodePoint.isDigit
  let object := if isNumeral then parenthesized text else text
  if computed then
    return object ++ (if optional then "?.[" else "[") ++ (← whole c name) ++ "]"
  return object ++ (if optional then "?." else ".") ++ (← nameOf name)

def call (c : Setting) (callee : Option Printed) (arguments : List Printed) (optional : Bool) :
    Printing Text := do
  let callee ← expression c Precedence.call callee
  return callee ++ mark optional "?." ++ parenthesized (← items c arguments)

/-- `new` with its operand and arguments. -/
def construction (c : Setting) (callee : Option Printed) (arguments : List Printed) :
    Printing Text := do
  let apart := (callee.map fun p => p.node.containsCall).getD false
  let callee ← operand c Precedence.member apart callee
  return "new " ++ callee ++ parenthesized (← items c arguments)

/-- A word and its operand, if there is one. -/
def yield_ (c : Setting) (argument : Option Printed) (delegate : Bool) : Printing Text := do
  let word : Text := if delegate then "yield*" else "yield"
  match argument with
  | none => return word
  | some p => return word ++ " " ++ (← item c (some p))

def bareText (n : Node) (form : Form Printed) (c : Setting) : Printing Text :=
  match form with
  | .identifier name => .ok name
  | .literal value raw => .ok (raw.getD (valueText value))
  | .templateLiteral raw | .regExpLiteral raw => .ok raw
  | .thisExpression => .ok "this"
  | .superExpression => .ok "super"
  | .arrayExpression elements | .arrayPattern elements => array c elements
  | .objectExpression properties => return inBraces (← properties.mapM (property c))
  | .objectPattern properties => return inBraces (← properties.mapM (patternProperty c))
  | .spreadElement argument | .restElement argument => return "..." ++ (← item c argument)
  | .assignmentPattern left right => return (← item c left) ++ " = " ++ (← item c right)
  | .functionExpression id params body isAsync generator =>
    function c c.depth id params body isAsync generator
  | .classExpression id superclass body => class_ c c.depth id superclass body
  | .arrowFunctionExpression params body isAsync => arrow c params body isAsync
  | .unaryExpression operator argument => unary c operator argument
  | .awaitExpression argument =>
    return "await " ++ (← expression c Precedence.unary argument)
  | .updateExpression operator argument before =>
    if before then return operator ++ (← expression c Precedence.unary argument)
    else return (← expression c Precedence.call argument) ++ operator
  | .binaryExpression operator left right => binary c false operator left right
  | .logicalExpression operator left right => binary c true operator left right
  | .assignmentExpression operator left right =>
    return (← expression c Precedence.call left) ++ " " ++ operator ++ " " ++ (← item c right)
  | .conditionalExpression test consequent alternate => conditional c test consequent alternate
  | .callExpression callee arguments optional => call c callee arguments optional
  | .newExpression callee arguments => construction c callee arguments
  | .memberExpression object name computed optional => member c object name computed optional
  | .taggedTemplateExpression tag quasi =>
    return (← expression c Precedence.call tag) ++ (← literal quasi)
  | .importExpression source => return "import" ++ parenthesized (← item c source)
  | .metaProperty object name => return (← nameOf object) ++ "." ++ (← nameOf name)
  | .sequenceExpression expressions => items c expressions
  | .yieldExpression argument delegate => yield_ c argument delegate
  | .invalid => .error .invalidExpression
  | _ => .error (.expression n.typeName)

/-! ## Statements -/

/-- An expression as a statement, in parentheses if it starts like another statement. -/
def expressionStatement (c : Setting) (p : Option Printed) : Printing Text := do
  let text ← whole c p
  let apart ←
    match p with
    | some p => p.node.startsWith Node.startsLikeStatement
    | none => .ok false
  return (if apart then parenthesized text else text) ++ ";"

/-- One variable, perhaps with a value. -/
def declarator (c : Setting) (p : Printed) : Printing Text := do
  match p.form with
  | .variableDeclarator id init =>
    let target ← item c id
    match init with
    | none => return target
    | some value => return target ++ " = " ++ (← item c (some value))
  | _ => throw .missingPart

/-- A declaration of variables, without a semicolon. -/
def declaration (c : Setting) (p : Option Printed) : Printing Text := do
  match (← required p).form with
  | .variableDeclaration kind declarators =>
    return kind ++ " " ++ commas (← declarators.mapM (declarator c))
  | _ => throw .missingPart

/-- A word and an operand that may be missing, with a semicolon. -/
def jump (c : Setting) (word : Text) (argument : Option Printed) : Printing Text := do
  match argument with
  | none => return word ++ ";"
  | some p => return word ++ " " ++ (← whole c (some p)) ++ ";"

/-- `if` with its branches. A branch that ends with an open `if` is put in braces before `else`. -/
def ifStatement (c : Setting) (depth : Nat) (test consequent alternate : Option Printed) :
    Printing Text := do
  let test ← whole c test
  let wrapped := alternate.isSome &&
    (consequent.map fun p => p.node.endsWithOpenIf).getD false
  let branch ←
    match wrapped, consequent with
    | true, some p => pure <| " " ++ linesInBraces depth [← line (depth + 1) p]
    | _, _ => body depth consequent
  let head : Text := "if " ++ parenthesized test ++ branch
  match alternate with
  | none => return head
  | some other =>
    let gap : Text := if wrapped || isBlock consequent then " " else "\n" ++ indent depth
    match other.form with
    | .ifStatement .. => return head ++ gap ++ "else " ++ (← other.statement depth)
    | _ => return head ++ gap ++ "else" ++ (← body depth (some other))

/-- The part of the head of a `for` after a semicolon. -/
def forPart (c : Setting) (p : Option Printed) : Printing Text := do
  match p with
  | none => return []
  | some p =>
    let text ← whole c (some p)
    return if text.isEmpty then [] else " " ++ text

/-- What the head of a `for` starts with. -/
def forInit (c : Setting) (p : Option Printed) : Printing Text := do
  match p with
  | none => return []
  | some p =>
    match p.form with
    | .variableDeclaration .. => declaration c (some p)
    | _ => whole c (some p)

/-- `for` with three parts. -/
def forStatement (depth : Nat) (init test update loop : Option Printed) : Printing Text := do
  let init ← forInit ⟨depth, true⟩ init
  let test ← forPart ⟨depth, false⟩ test
  let update ← forPart ⟨depth, false⟩ update
  return "for " ++ parenthesized (init ++ ";" ++ test ++ ";" ++ update) ++ (← body depth loop)

/-- `do` with its condition. -/
def doWhileStatement (c : Setting) (depth : Nat) (loop test : Option Printed) : Printing Text := do
  let condition : Text := "while " ++ parenthesized (← whole c test) ++ ";"
  if isBlock loop then return "do " ++ (← block depth loop) ++ " " ++ condition
  return "do" ++ (← body depth loop) ++ "\n" ++ indent depth ++ condition

/-- The part of a `try` that handles an error. -/
def handlerText (c : Setting) (depth : Nat) (handler : Printed) : Printing Text := do
  match handler.form with
  | .catchClause param body =>
    let param : Text ←
      match param with
      | none => .ok []
      | some p => pure <| parenthesized (← item c (some p)) ++ " "
    return " catch " ++ param ++ (← block depth body)
  | _ => throw .missingPart

/-- `try` with what handles and what follows it. -/
def tryStatement (c : Setting) (depth : Nat) (tried handler finalizer : Option Printed) :
    Printing Text := do
  let tried ← block depth tried
  let handler : Text ←
    match handler with
    | none => .ok []
    | some p => handlerText c depth p
  let finalizer : Text ←
    match finalizer with
    | none => .ok []
    | some p => pure <| " finally " ++ (← block depth (some p))
  return "try " ++ tried ++ handler ++ finalizer

/-- The label of a `case`, or that of the `default` of a `switch`. -/
def caseLabel (c : Setting) (test : Option Printed) : Printing Text :=
  match test with
  | none => .ok "default:"
  | some p => return "case " ++ (← whole c (some p)) ++ ":"

/-- The lines of a `case` or of the `default` of a `switch`. -/
def switchCase (c : Setting) (depth : Nat) (p : Printed) : Printing (List Text) := do
  match p.form with
  | .switchCase test consequent =>
    let label ← caseLabel c test
    return (indent (depth + 1) ++ label) :: (← consequent.mapM (line (depth + 2)))
  | _ => throw .missingPart

/-- `switch` with its cases. -/
def switchStatement (c : Setting) (depth : Nat) (discriminant : Option Printed)
    (cases : List Printed) : Printing Text := do
  let head : Text := "switch " ++ parenthesized (← whole c discriminant) ++ " \x7b"
  let cases ← cases.mapM (switchCase c depth)
  return Text.join "\n" (head :: cases.flatten ++ [indent depth ++ "\x7d"])

/-! ## Imports and exports -/

/-- What one part of an import binds: a name or a namespace directly, or a name between braces. -/
inductive ImportPart where
  | direct (t : Text)
  | named (t : Text)

namespace ImportPart

/-- The text of a part outside braces. -/
def direct? : ImportPart → Option Text
  | direct t => some t
  | named _ => none

/-- The text of a part between braces. -/
def named? : ImportPart → Option Text
  | direct _ => none
  | named t => some t

end ImportPart

/-- A name, or two of them if they differ. -/
def renamed (first second : Text) : Text :=
  if first = second then first else first ++ " as " ++ second

def importPart (p : Printed) : Printing ImportPart := do
  match p.form with
  | .importDefaultSpecifier name => return .direct (← nameOf name)
  | .importNamespaceSpecifier name => return .direct ("* as " ++ (← nameOf name))
  | .importSpecifier name imported =>
    let imported ← moduleName imported
    return .named (renamed imported (← nameOf name))
  | _ => throw .missingPart

def importDeclaration (specifiers : List Printed) (source : Option Printed) : Printing Text := do
  let source ← literal source
  if specifiers.isEmpty then return "import " ++ source ++ ";"
  let parts ← specifiers.mapM importPart
  let named := parts.filterMap ImportPart.named?
  let braces := if named.isEmpty then [] else [inBraces named]
  return "import " ++ commas (parts.filterMap ImportPart.direct? ++ braces) ++ " from " ++ source ++
    ";"

def exportPart (p : Printed) : Printing Text := do
  match p.form with
  | .exportSpecifier name exported =>
    let name ← moduleName name
    return renamed name (← moduleName exported)
  | _ => throw .missingPart

def namedExports (specifiers : List Printed) (source : Option Printed) : Printing Text := do
  let names ← specifiers.mapM exportPart
  let text := commas names
  let braces := if text.isEmpty then inBraces [] else inBraces names
  match source with
  | none => return "export " ++ braces ++ ";"
  | some p => return "export " ++ braces ++ " from " ++ (← literal (some p)) ++ ";"

def defaultExport (c : Setting) (depth : Nat) (p : Option Printed) : Printing Text := do
  match p.map Printed.form with
  | some (.functionDeclaration id params body isAsync generator) =>
    return "export default " ++ (← function c depth id params body isAsync generator)
  | some (.classDeclaration id superclass body) =>
    return "export default " ++ (← class_ c depth id superclass body)
  | _ =>
    let text ← item c p
    let apart ←
      match p with
      | some p => p.node.startsWith Node.isFunctionOrClass
      | none => .ok false
    return "export default " ++ (if apart then parenthesized text else text) ++ ";"

def wholeExport (source exported : Option Printed) : Printing Text := do
  let exportedAs : Text ←
    match exported with
    | none => .ok []
    | some p => pure <| " as " ++ (← moduleName (some p))
  return "export *" ++ exportedAs ++ " from " ++ (← literal source) ++ ";"

def statementText (n : Node) (form : Form Printed) (depth : Nat) : Printing Text :=
  let c : Setting := ⟨depth, false⟩
  match form with
  | .expressionStatement e => expressionStatement c e
  | .variableDeclaration kind declarators =>
    return kind ++ " " ++ commas (← declarators.mapM (declarator c)) ++ ";"
  | .functionDeclaration id params body isAsync generator =>
    function c depth id params body isAsync generator
  | .classDeclaration id superclass body => class_ c depth id superclass body
  | .blockStatement body => return linesInBraces depth (← body.mapM (line (depth + 1)))
  | .emptyStatement => .ok ";"
  | .returnStatement argument => jump c "return" argument
  | .throwStatement argument => return "throw " ++ (← whole c argument) ++ ";"
  | .breakStatement => .ok "break;"
  | .continueStatement => .ok "continue;"
  | .ifStatement test consequent alternate => ifStatement c depth test consequent alternate
  | .forStatement init test update loop => forStatement depth init test update loop
  | .forInStatement left right loop => do
    let left ← declaration c left
    let right ← whole c right
    return "for " ++ parenthesized (left ++ " in " ++ right) ++ (← body depth loop)
  | .forOfStatement left right loop isAwait => do
    let left ← declaration c left
    let right ← item c right
    let word : Text := if isAwait then "for await " else "for "
    return word ++ parenthesized (left ++ " of " ++ right) ++ (← body depth loop)
  | .whileStatement test loop => do
    let test ← whole c test
    return "while " ++ parenthesized test ++ (← body depth loop)
  | .doWhileStatement loop test => doWhileStatement c depth loop test
  | .tryStatement tried handler finalizer => tryStatement c depth tried handler finalizer
  | .switchStatement discriminant cases => switchStatement c depth discriminant cases
  | .importDeclaration specifiers source => importDeclaration specifiers source
  | .exportNamedDeclaration (some declared) _ _ =>
    return "export " ++ (← declared.statement depth)
  | .exportNamedDeclaration none specifiers source => namedExports specifiers source
  | .exportDefaultDeclaration declared => defaultExport c depth declared
  | .exportAllDeclaration source exported => wholeExport source exported
  | _ => .error (.statement n.typeName)

end Print

namespace Node

def printed (n : Node) : Printed :=
  n.fold fun n form => .mk n form (Print.bareText n form) (Print.statementText n form)

/-- The text of a module; unless it is empty it ends with a line break. -/
def moduleText (n : Node) : Printing Text := do
  match ← Print.lines 0 (some n.printed) with
  | [] => return []
  | lines => return Text.join "\n" lines ++ "\n"

def expressionText (n : Node) : Printing Text := Print.whole ⟨0, false⟩ (some n.printed)

end Node

end ModuleLowering
