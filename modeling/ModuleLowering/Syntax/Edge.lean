import ModuleLowering.Syntax.Traversal

/-!
# Edges

What a printed node starts and ends with, as far as it decides about parentheses and braces around
it: how tightly an expression binds, which node holds its first token, whether it holds a call where
`new` would take it, and whether a statement ends with an `if` that an `else` would extend.
-/

set_option autoImplicit false

namespace ModuleLowering

/-- Why a tree cannot be printed. -/
inductive PrintError where
  /-- A node of this kind stands where a statement should. -/
  | statement (typeName : String)
  /-- A node of this kind stands where an expression should. -/
  | expression (typeName : String)
  /-- A node of this kind stands where a class member should. -/
  | classMember (typeName : String)
  /-- A placeholder for an expression that a pass took away. -/
  | invalidExpression
  | unknownOperator (operator : Text)
  | emptySequence
  /-- A part that has to be there is absent or of a kind that has no such place. -/
  | missingPart
deriving DecidableEq

namespace PrintError

def message? : PrintError → Option Text
  | statement typeName => some ("cannot print statement " ++ (typeName : Text))
  | expression typeName => some ("cannot print expression " ++ (typeName : Text))
  | classMember typeName => some ("cannot print class member " ++ (typeName : Text))
  | invalidExpression => some "invalid expression left in tree"
  | unknownOperator _ | emptySequence | missingPart => none

end PrintError

abbrev Printing := Except PrintError

/-! ## Precedence -/

namespace Precedence

/-- Expressions joined by commas. -/
def sequence : Nat := 1

/-- Assignments, arrow functions and `yield`. -/
def assignment : Nat := 2

/-- Conditions with two branches. -/
def conditional : Nat := 3

/-- The loosest operators between two operands. -/
def logicalOr : Nat := 4

/-- Operators before their operand. -/
def unary : Nat := 15

/-- Operators after their operand. -/
def postfixed : Nat := 16

def call : Nat := 17

/-- Members, and `new` with its arguments. -/
def member : Nat := 18

/-- Everything that needs no parentheses anywhere. -/
def primary : Nat := 19

/-- The operators between two operands, level by level from the loosest. -/
def binaryLevels : List (List Text) :=
  [["||", "??"], ["&&"], ["|"], ["^"], ["&"], ["==", "!=", "===", "!=="],
    ["<", ">", "<=", ">=", "instanceof", "in"], ["<<", ">>", ">>>"], ["+", "-"], ["*", "/", "%"],
    ["**"]]

/-- How tightly an operator between two operands binds. -/
def binary (operator : Text) : Printing Nat :=
  match binaryLevels.findIdx? fun level => level.contains operator with
  | some n => .ok (logicalOr + n)
  | none => .error (.unknownOperator operator)

end Precedence

namespace Node

/-- How tightly an expression binds. -/
def precedence (n : Node) : Printing Nat :=
  match n.form with
  | .sequenceExpression _ => .ok Precedence.sequence
  | .assignmentExpression .. | .arrowFunctionExpression .. | .yieldExpression .. =>
    .ok Precedence.assignment
  | .conditionalExpression .. => .ok Precedence.conditional
  | .binaryExpression operator .. | .logicalExpression operator .. => Precedence.binary operator
  | .unaryExpression .. | .awaitExpression _ => .ok Precedence.unary
  | .updateExpression _ _ before =>
    .ok (if before then Precedence.unary else Precedence.postfixed)
  | .callExpression .. | .importExpression _ => .ok Precedence.call
  | .memberExpression .. | .newExpression .. | .taggedTemplateExpression .. =>
    .ok Precedence.member
  | _ => .ok Precedence.primary

/-! ## The first token -/

mutual

/-- The node whose own token comes first in a printed expression, unless a part is absent. -/
def leftmost : Node → Printing (Option Node)
  | mk loc form =>
    match form with
    | .callExpression callee _ _ => leftmostPart callee
    | .memberExpression object _ _ _ => leftmostPart object
    | .taggedTemplateExpression tag _ => leftmostPart tag
    | .binaryExpression _ left _ => leftmostPart left
    | .logicalExpression _ left _ => leftmostPart left
    | .assignmentExpression _ left _ => leftmostPart left
    | .conditionalExpression test _ _ => leftmostPart test
    | .sequenceExpression expressions => leftmostHead expressions
    | .updateExpression operator argument before =>
      if before then .ok (some (mk loc (.updateExpression operator argument before)))
      else leftmostPart argument
    | form => .ok (some (mk loc form))

/-- The node whose token comes first in a part. -/
def leftmostPart : Option Node → Printing (Option Node)
  | none => .ok none
  | some n => leftmost n

/-- The node whose token comes first in a list of parts. -/
def leftmostHead : List Node → Printing (Option Node)
  | [] => .error .emptySequence
  | n :: _ => leftmost n

end

/-- Whether the first token of an expression belongs to a node that passes the test. -/
def startsWith (test : Node → Bool) (n : Node) : Printing Bool :=
  n.leftmost.map fun first => (first.map test).getD false

def isFunctionOrClass (n : Node) : Bool :=
  match n.form with
  | .functionExpression .. | .classExpression .. => true
  | _ => false

def isObject (n : Node) : Bool :=
  match n.form with
  | .objectExpression _ => true
  | _ => false

/-- Whether a node starts with a token that an expression statement may not start with. -/
def startsLikeStatement (n : Node) : Bool :=
  match n.form with
  | .objectPattern _ => true
  | _ => n.isObject || n.isFunctionOrClass

/-! ## Calls and open ends -/

mutual

/-- Whether a call stands where `new` would take its parenthesis for its own. -/
def containsCall : Node → Bool
  | mk _ form =>
    match form with
    | .callExpression .. => true
    | .memberExpression object _ _ _ => partContainsCall object
    | .taggedTemplateExpression tag _ => partContainsCall tag
    | _ => false

/-- Whether a part contains a call in that sense. -/
def partContainsCall : Option Node → Bool
  | none => false
  | some n => containsCall n

end

mutual

/-- Whether a statement ends with an `if` that has no `else`. -/
def endsWithOpenIf : Node → Bool
  | mk _ form =>
    match form with
    | .ifStatement _ _ none => true
    | .ifStatement _ _ (some alternate) => endsWithOpenIf alternate
    | .forStatement _ _ _ body => partEndsWithOpenIf body
    | .forInStatement _ _ body => partEndsWithOpenIf body
    | .forOfStatement _ _ body _ => partEndsWithOpenIf body
    | .whileStatement _ body => partEndsWithOpenIf body
    | _ => false

/-- Whether a part ends with an `if` that has no `else`. -/
def partEndsWithOpenIf : Option Node → Bool
  | none => false
  | some n => endsWithOpenIf n

end

/-- Whether `??` would stand directly beside `||` or `&&`. -/
def mixesNullish (operator : Text) (child : Node) : Bool :=
  match child.form with
  | .logicalExpression inner _ _ => (operator = "??") != (inner = "??")
  | _ => false

end Node

end ModuleLowering
