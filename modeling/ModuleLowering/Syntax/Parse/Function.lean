import ModuleLowering.Syntax.Parse.Basic

/-!
# Functions, methods and classes

The rules for what functions and classes share, whether they are declared or stand in an
expression: names, parameters, bodies, members.
-/

set_option autoImplicit false

namespace ModuleLowering.Parser

/-! ## Names and literals -/

def identifier : Parser Node := do
  let token ← takeIf Terminal.isName
  return .mk (some token.start) (.identifier token.text)

def stringOf (token : Token) : Shaped Node :=
  match StringLiteral.value token.text with
  | .ok value => .ok (.mk (some token.start) (.literal (.text value) (some token.text)))
  | .error fault => .error (.escape fault)

def stringLiteral : Parser (Shaped Node) := return stringOf (← take .string)

def numberOf (token : Token) : Shaped Node :=
  match Numeral.value? token.text with
  | some n => .ok (.mk (some token.start) (.literal (.number n) (some token.text)))
  | none => .error .numeral

def numberLiteral : Parser (Shaped Node) := return numberOf (← take .number)

/-- The name of a property or member, and whether it is computed. -/
structure Key where
  node : Node
  computed : Bool

/-- The name of a property or member. -/
def key (k : Deeper) : Parser (Shaped Key) := do
  match ← look with
  | some .string => return (← stringLiteral).map (⟨·, false⟩)
  | some .number => return (← numberLiteral).map (⟨·, false⟩)
  | some (.punctuator .leftBracket) =>
    punctuator .leftBracket
    let name ← k.assignment
    punctuator .rightBracket
    return name.map (⟨·, true⟩)
  | _ => return .ok ⟨← identifier, false⟩

/-! ## Parameters and bodies -/

/-- Nodes that are built one after the other. -/
def inOrder (nodes : List (Shaped Node)) : Shaped (List Node) := nodes.mapM id

/-- Statements between braces. -/
def block (k : Deeper) : Parser (Shaped Node) := do
  let start ← place
  punctuator .leftBrace
  let body ← itemsUntil k.statement (.punctuator .rightBrace)
  return do return .mk start (.blockStatement (← inOrder body))

/-- A parameter, perhaps with a default, or the rest of the arguments. -/
def parameter (k : Deeper) : Parser (Shaped Node) := do
  let start ← place
  if ← taken (.punctuator .ellipsis) then
    let target ← k.binding
    return do return .mk start (.restElement (some (← target)))
  let target ← k.binding
  if ← taken (.punctuator .assign) then
    let value ← k.assignment
    return do
      let target ← target
      return .mk start (.assignmentPattern (some target) (some (← value)))
  return target

def parameters (k : Deeper) : Parser (Shaped (List Node)) := do
  punctuator .leftParen
  return inOrder (← items (parameter k) (.punctuator .rightParen))

/-- The parameters and the body of a function. -/
structure FunctionRest where
  parameters : List Node
  body : Node

/-- The parameters and the body of a function. -/
def functionRest (k : Deeper) : Parser (Shaped FunctionRest) := do
  let params ← parameters k
  let body ← block k
  return do
    let params ← params
    return ⟨params, ← body⟩

/-- A function in an expression: perhaps `async`, perhaps a generator, perhaps with a name. -/
def functionExpression (k : Deeper) : Parser (Shaped Node) := do
  let start ← place
  let isAsync ← taken (.word .kwAsync)
  word .kwFunction
  let generator ← taken (.punctuator .star)
  let name ←
    if (← look) = some (.punctuator .leftParen) then pure none else some <$> identifier
  let rest ← functionRest k
  return do
    let rest ← rest
    return .mk start
      (.functionExpression name rest.parameters (some rest.body) isAsync generator)

/-- A declared function; where `nameless` holds the name may be missing. -/
def functionDeclaration (k : Deeper) (nameless : Bool) : Parser (Shaped Node) := do
  let start ← place
  let isAsync ← taken (.word .kwAsync)
  discard (take .functionDeclaration)
  let generator ← taken (.punctuator .star)
  let name ←
    if nameless && (← look) = some (.punctuator .leftParen) then pure none
    else some <$> identifier
  let rest ← functionRest k
  return do
    let rest ← rest
    return .mk start
      (.functionDeclaration name rest.parameters (some rest.body) isAsync generator)

/-! ## Methods -/

/-- What stands before the name of a method. -/
structure MethodMarks where
  kind : Text := "method"
  isAsync : Bool := false
  generator : Bool := false
  /-- Whether any mark was read. -/
  marked : Bool := true

/-- The marks before the name of a method. `get` and `set` are marks only before a name. -/
def methodMarks : Parser MethodMarks := do
  let namesNext := ((← lookFurther).map Terminal.startsPropertyName).getD false
  match ← look with
  | some (.word .kwAsync) =>
    word .kwAsync
    return { isAsync := true, generator := ← taken (.punctuator .star) }
  | some (.punctuator .star) =>
    punctuator .star
    return { generator := true }
  | some (.word .kwGet) =>
    if namesNext then
      word .kwGet
      return { kind := "get" }
    else return { marked := false }
  | some (.word .kwSet) =>
    if namesNext then
      word .kwSet
      return { kind := "set" }
    else return { marked := false }
  | _ => return { marked := false }

/-- A method: its name, and the function it is. -/
structure Method where
  key : Key
  function : Node
  kind : Text

def methodRest (k : Deeper) (start : Option Position) (marks : MethodMarks) (key : Shaped Key) :
    Parser (Shaped Method) := do
  let rest ← functionRest k
  return do
    let key ← key
    let rest ← rest
    let function : Node := .mk start
      (.functionExpression none rest.parameters (some rest.body) marks.isAsync marks.generator)
    return ⟨key, function, marks.kind⟩

/-! ## Classes -/

/-- Whether `static` is the name of a member, as what follows it tells, and not a mark. -/
def staticIsName (next : Option Terminal) : Bool :=
  [some (.punctuator .leftParen), some (.punctuator .assign), some .terminator].contains next

/-- A method as a member of a class; a method named `constructor` is the constructor. -/
def memberOf (start : Option Position) (isStatic : Bool) (method : Method) : Node :=
  let kind : Text :=
    if method.kind = "method" && !isStatic && method.key.node.isNamed "constructor"
    then "constructor" else method.kind
  .mk start (.methodDefinition (some method.key.node) (some method.function) kind isStatic
    method.key.computed)

/-- A field of a class, from what follows its name on. -/
def fieldRest (k : Deeper) (start : Option Position) (isStatic : Bool) (key : Shaped Key) :
    Parser (Shaped Node) := do
  let value ← if ← taken (.punctuator .assign) then some <$> k.assignment else pure none
  terminator
  return do
    let key ← key
    let value ← value.mapM id
    return .mk start (.propertyDefinition (some key.node) value isStatic key.computed)

/-- A member of a class; a terminator alone is none. -/
def classMember (k : Deeper) : Parser (Option (Shaped Node)) := do
  if ← taken .terminator then return none
  let start ← place
  let isStatic ←
    if (← look) = some (.word .kwStatic) && !staticIsName (← lookFurther) then
      word .kwStatic
      pure true
    else pure false
  let methodStart ← place
  let marks ← methodMarks
  let name ← key k
  if marks.marked || (← look) = some (.punctuator .leftParen) then
    let method ← methodRest k methodStart marks name
    return some (method.map (memberOf start isStatic))
  return some (← fieldRest k start isStatic name)

/-- What a class extends, if anything. -/
def heritage (k : Deeper) : Parser (Option (Shaped Node)) := do
  if ← taken (.word .kwExtends) then return some (← k.leftHandSide)
  return none

/-- The members of a class between braces. -/
def classBody (k : Deeper) : Parser (Shaped (List Node)) := do
  punctuator .leftBrace
  let members ← itemsUntil (classMember k) (.punctuator .rightBrace)
  return inOrder (members.filterMap id)

/-- The parts of a class after its name. -/
structure ClassRest where
  superclass : Option Node
  body : List Node

/-- The parts of a class after its name; the members are built first. -/
def classRest (k : Deeper) : Parser (Shaped ClassRest) := do
  let superclass ← heritage k
  let members ← classBody k
  return do
    let members ← members
    return ⟨← superclass.mapM id, members⟩

def classExpression (k : Deeper) : Parser (Shaped Node) := do
  let start ← place
  word .kwClass
  let named := ((← look).map Terminal.isName).getD false
  let name ← if named then some <$> identifier else pure none
  let rest ← classRest k
  return do
    let rest ← rest
    return .mk start (.classExpression name rest.superclass rest.body)

/-- A declared class; where `nameless` holds the name may be missing. -/
def classDeclaration (k : Deeper) (nameless : Bool) : Parser (Shaped Node) := do
  let start ← place
  discard (take .classDeclaration)
  let named := ((← look).map Terminal.isName).getD false
  let name ← if named || !nameless then some <$> identifier else pure none
  let rest ← classRest k
  return do
    let rest ← rest
    return .mk start (.classDeclaration name rest.superclass rest.body)

end ModuleLowering.Parser
