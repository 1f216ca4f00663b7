import ModuleLowering.Syntax.Traversal
import ModuleLowering.Token.StringLiteral

/-!
# Shapes

The grammar reads some constructs by a rule that is wider than they are: the parameters of an arrow
function and the target of an assignment as expressions. What the rule let through is checked when
the tree is built, and expressions are turned into patterns.
-/

set_option autoImplicit false

namespace ModuleLowering

/-- Why a text that fits the grammar is no module all the same. -/
inductive ShapeError where
  | importNeedsLocalName
  | tryWithoutHandler
  | parametersWithoutArrow
  | invalidAssignmentTarget
  | invalidUpdateTarget
  | unknownMetaProperty (object member : Text)
  | invalidDestructuring
  | invalidBinding
deriving DecidableEq

namespace ShapeError

def message : ShapeError → Text
  | importNeedsLocalName => "import specifier needs a local binding"
  | tryWithoutHandler => "try without catch or finally"
  | parametersWithoutArrow => "parameter list without arrow"
  | invalidAssignmentTarget => "invalid assignment target"
  | invalidUpdateTarget => "invalid update target"
  | unknownMetaProperty object member => "unknown meta property " ++ object ++ "." ++ member
  | invalidDestructuring => "invalid destructuring pattern"
  | invalidBinding => "invalid binding pattern"

end ShapeError

/-- Why no tree can be built of a text that fits the grammar. -/
inductive ShapeFault where
  /-- An error at a place. -/
  | error (e : ShapeError) (loc : Option Position)
  /-- A numeral without a value. -/
  | numeral
  /-- A string literal with an escape that stands for nothing. -/
  | escape (e : EscapeFault)
deriving DecidableEq

/-- A value that is built of a text that fits the grammar. -/
abbrev Shaped (α : Type) := Except ShapeFault α

namespace Node

/-- The pattern of a part that may be absent. -/
def partPattern : Option (Node × Shaped Node) → Shaped (Option Node)
  | none => .ok none
  | some (_, pattern) => pattern.map some

/-- The pattern that a node stands for, each part of its form being given with the pattern that
the part stands for. -/
def patternOf (n : Node) (form : Form (Node × Shaped Node)) : Shaped Node :=
  match form with
  | .identifier _ | .memberExpression .. | .assignmentPattern .. => .ok n
  | .assignmentExpression operator left right =>
    if operator = "=" then do
      return mk n.loc (.assignmentPattern (← partPattern left) (right.map (·.1)))
    else .error (.error .invalidBinding n.loc)
  | .spreadElement argument => do return mk n.loc (.restElement (← partPattern argument))
  | .arrayExpression elements => do
    return mk n.loc (.arrayPattern (← elements.mapM partPattern))
  | .objectExpression properties => do
    return mk n.loc (.objectPattern (← properties.mapM (·.2)))
  | .property key value computed shorthand method kind =>
    if kind = "init" && !method then do
      return mk n.loc
        (.property (key.map (·.1)) (← partPattern value) computed shorthand false "init")
    else .error (.error .invalidDestructuring n.loc)
  | _ => .error (.error .invalidBinding n.loc)

/-- The pattern that an expression stands for where names are bound: a name or a member is one,
an assignment is a pattern with a default, a spread is the rest, and arrays and objects are read
part by part. -/
def asPattern (n : Node) : Shaped Node :=
  (n.fold fun n form => (n, patternOf n form)).2

/-- Whether a value can be stored in what an expression names. -/
def isTarget (n : Node) : Bool :=
  match n.form with
  | .identifier _ | .memberExpression .. => true
  | _ => false

/-- The target of an assignment whose left side is `left`. -/
def asTarget (operator : Text) (left : Node) (loc : Option Position) : Shaped Node :=
  match left.form with
  | .arrayExpression _ | .objectExpression _ =>
    if operator = "=" then left.asPattern else .error (.error .invalidAssignmentTarget loc)
  | _ =>
    if left.isTarget then .ok left else .error (.error .invalidAssignmentTarget loc)

/-- The expressions that a comma joins. -/
def commaParts (n : Node) : List Node :=
  match n.form with
  | .sequenceExpression expressions => expressions
  | _ => [n]

/-- The parameters that an expression in parentheses stands for before an arrow. -/
def asParameters (n : Node) : Shaped (List Node) := n.commaParts.mapM asPattern

end Node

end ModuleLowering
