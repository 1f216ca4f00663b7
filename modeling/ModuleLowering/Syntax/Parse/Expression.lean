import ModuleLowering.Syntax.Parse.Function

/-!
# Expressions

The rules for expressions, from the tightest to the loosest: primary expressions, members and
calls, counting, operators before an operand, powers, ten levels of operators between operands,
conditions, and assignments with arrow functions.
-/

set_option autoImplicit false

namespace ModuleLowering.Parser

/-! ## Arrays and objects -/

def arrayElement (k : Deeper) : Parser (Shaped Node) := do
  let start ← place
  if ← taken (.punctuator .ellipsis) then
    let argument ← k.assignment
    return do return .mk start (.spreadElement (some (← argument)))
  k.assignment

/-- The elements of an array up to its closing bracket; every comma that no element comes before
leaves a hole. -/
def arrayElements (k : Deeper) : Nat → Parser (List (Option (Shaped Node)))
  | 0 => fail
  | fuel + 1 => do
    if ← taken (.punctuator .rightBracket) then return []
    if ← taken (.punctuator .comma) then
      return none :: (← arrayElements k fuel)
    let element ← arrayElement k
    if ← taken (.punctuator .comma) then
      return some element :: (← arrayElements k fuel)
    punctuator .rightBracket
    return [some element]

def array (k : Deeper) : Parser (Shaped Node) := do
  let start ← place
  punctuator .leftBracket
  let elements ← arrayElements k ((← left) + 1)
  return do
    let elements ← elements.mapM fun element => element.mapM id
    return .mk start (.arrayExpression elements)

def propertyOf (start : Option Position) (method : Method) : Node :=
  let isMethod := method.kind = "method"
  .mk start (.property (some method.key.node) (some method.function) method.key.computed false
    isMethod (if isMethod then "init" else method.kind))

/-- A property with a name and a value of that name, perhaps with a default. -/
def shorthandOf (start : Option Position) (name : Node) (default? : Option Node) : Node :=
  let value : Node :=
    match default? with
    | none => name
    | some d => .mk start (.assignmentPattern (some name) (some d))
  .mk start (.property (some name) (some value) false true false "init")

/-- A property of an object that starts with a name alone, from what follows the name on. -/
def namedProperty (k : Deeper) (start : Option Position) (isName : Bool) (name : Shaped Key) :
    Parser (Shaped Node) := do
  if ← taken (.punctuator .colon) then
    let value ← k.assignment
    return do
      let name ← name
      return .mk start
        (.property (some name.node) (some (← value)) name.computed false false "init")
  if (← look) = some (.punctuator .leftParen) then
    return (← methodRest k start { marked := false } name).map (propertyOf start)
  if !isName then fail
  if ← taken (.punctuator .assign) then
    let value ← k.assignment
    return do
      let name ← name
      return shorthandOf start name.node (some (← value))
  return name.map fun name => shorthandOf start name.node none

def objectProperty (k : Deeper) : Parser (Shaped Node) := do
  let start ← place
  if ← taken (.punctuator .ellipsis) then
    let argument ← k.assignment
    return do return .mk start (.spreadElement (some (← argument)))
  let marks ← methodMarks
  let isName := ((← look).map Terminal.isName).getD false
  let name ← key k
  if marks.marked then return (← methodRest k start marks name).map (propertyOf start)
  namedProperty k start isName name

def object (k : Deeper) : Parser (Shaped Node) := do
  let start ← place
  discard (take .objectBrace)
  let properties ← items (objectProperty k) (.punctuator .rightBrace)
  return do return .mk start (.objectExpression (← inOrder properties))

/-- What names are bound to: a name, or an array or object read as a pattern. -/
def binding (k : Deeper) : Parser (Shaped Node) := do
  match ← look with
  | some (.punctuator .leftBracket) => return (← array k) >>= Node.asPattern
  | some .objectBrace => return (← object k) >>= Node.asPattern
  | _ => return .ok (← identifier)

/-! ## Primary expressions -/

/-- Two expressions that a comma joins. -/
def joinByComma (start : Option Position) (left right : Shaped Node) : Shaped Node := do
  let left ← left
  return .mk start (.sequenceExpression (left.commaParts ++ [← right]))

/-- Joins the expressions after the first one, from left to right. -/
def joinAll (start : Option Position) (first : Shaped Node) (rest : List (Shaped Node)) :
    Shaped Node :=
  rest.foldl (joinByComma start) first

/-- One or more expressions between commas. -/
def commaExpression (item : Parser (Shaped Node)) : Parser (Shaped Node) := do
  let start ← place
  match ← parts item with
  | [] => fail
  | first :: rest => return joinAll start first rest

/-- The rest of the arguments, as the last parameter before an arrow. -/
def restParameter (k : Deeper) : Parser (Shaped Node) := do
  let target ← k.binding
  return target.map fun target => .mk target.loc (.restElement (some target))

/-- What is in parentheses after the first expression. -/
structure InParentheses where
  more : List (Shaped Node)
  rest : Option (Shaped Node)

/-- What is in parentheses after the first expression: more of them, perhaps the rest of the
arguments at the end. -/
def moreInParentheses (k : Deeper) : Nat → Parser InParentheses
  | 0 => fail
  | fuel + 1 => do
    if ← taken (.punctuator .rightParen) then return ⟨[], none⟩
    punctuator .comma
    if ← taken (.punctuator .ellipsis) then
      let rest ← restParameter k
      punctuator .rightParen
      return ⟨[], some rest⟩
    let item ← k.assignment
    let found ← moreInParentheses k fuel
    return { found with more := item :: found.more }

/-- The place of a parameter list that no arrow follows. -/
def noArrow (start : Option Position) : Shaped Node :=
  .error (.error .parametersWithoutArrow start)

/-- An expression or a parameter list in parentheses. An expression keeps its own place. -/
def parenthesized (k : Deeper) : Parser Operand := do
  let start ← place
  punctuator .leftParen
  if ← taken (.punctuator .rightParen) then return ⟨noArrow start, some (.ok [])⟩
  if ← taken (.punctuator .ellipsis) then
    let rest ← restParameter k
    punctuator .rightParen
    return ⟨noArrow start, some do return [← rest]⟩
  let inner ← place
  let first ← k.assignment
  let found ← moreInParentheses k ((← left) + 1)
  let node := joinAll inner first found.more
  match found.rest with
  | none => return ⟨node, some (node >>= Node.asParameters)⟩
  | some rest =>
    return ⟨noArrow start, some do
      let params ← node >>= Node.asParameters
      return params ++ [← rest]⟩

/-- The name after a dot. -/
def memberName : Parser Node := do
  let token ← take .name
  return .mk (some token.start) (.identifier token.text)

/-- `import.meta` or `new.target`, from the dot on. -/
def metaProperty (start : Option Position) (object expected : Text) : Parser (Shaped Node) := do
  punctuator .dot
  let name ← memberName
  return if name.isNamed expected then
    .ok (.mk start (.metaProperty (some (.mk start (.identifier object))) (some name)))
  else .error (.error (.unknownMetaProperty object (name.name?.getD [])) start)

def wordLiteral (w : Word) (value : Value) : Parser Operand := do
  let start ← place
  word w
  return .plain (.ok (.mk start (.literal value (some w.text))))

/-- An expression without operators, members or calls. -/
def primary (k : Deeper) : Parser Operand := do
  let start ← place
  match ← look with
  | some .number => return .plain (← numberLiteral)
  | some .string => return .plain (← stringLiteral)
  | some .template =>
    let token ← take .template
    return .plain (.ok (.mk start (.templateLiteral token.text)))
  | some .regex =>
    let token ← take .regex
    return .plain (.ok (.mk start (.regExpLiteral token.text)))
  | some .objectBrace => return .plain (← object k)
  | some (.punctuator .leftBracket) => return .plain (← array k)
  | some (.punctuator .leftParen) => parenthesized k
  | some (.word .kwTrue) => wordLiteral .kwTrue (.boolean true)
  | some (.word .kwFalse) => wordLiteral .kwFalse (.boolean false)
  | some (.word .kwNull) => wordLiteral .kwNull .null
  | some (.word .kwThis) =>
    word .kwThis
    return .plain (.ok (.mk start .thisExpression))
  | some (.word .kwSuper) =>
    word .kwSuper
    return .plain (.ok (.mk start .superExpression))
  | some (.word .kwImport) =>
    word .kwImport
    return .plain (← metaProperty start "import" "meta")
  | some (.word .kwFunction) | some (.word .kwAsync) => return .plain (← functionExpression k)
  | some (.word .kwClass) => return .plain (← classExpression k)
  | _ =>
    let name ← identifier
    return ⟨.ok name, some (.ok [name])⟩

/-! ## Members and calls -/

def argument (k : Deeper) : Parser (Shaped Node) := arrayElement k

def arguments (k : Deeper) : Parser (Shaped (List Node)) := do
  punctuator .leftParen
  return inOrder (← items (argument k) (.punctuator .rightParen))

def memberOfName (start : Option Position) (optional : Bool) (object : Shaped Node) :
    Parser (Shaped Node) := do
  let name ← memberName
  return object.map fun object =>
    .mk start (.memberExpression (some object) (some name) false optional)

/-- A member by an expression in brackets. -/
def memberOfIndex (k : Deeper) (start : Option Position) (optional : Bool) (object : Shaped Node) :
    Parser (Shaped Node) := do
  punctuator .leftBracket
  let index ← commaExpression k.assignment
  punctuator .rightBracket
  return do
    let object ← object
    return .mk start (.memberExpression (some object) (some (← index)) true optional)

/-- A template after its tag. -/
def tagged (start : Option Position) (tag : Shaped Node) : Parser (Shaped Node) := do
  let token ← take .template
  let quasi : Node := .mk (some token.start) (.templateLiteral token.text)
  return tag.map fun tag => .mk start (.taggedTemplateExpression (some tag) (some quasi))

def call (k : Deeper) (start : Option Position) (optional : Bool) (callee : Shaped Node) :
    Parser (Shaped Node) := do
  let args ← arguments k
  return do
    let callee ← callee
    return .mk start (.callExpression (some callee) (← args) optional)

/-- What follows `?.`. -/
def optionalAccess (k : Deeper) (start : Option Position) (object : Shaped Node) :
    Parser (Shaped Node) := do
  punctuator .optionalChain
  match ← look with
  | some (.punctuator .leftBracket) => memberOfIndex k start true object
  | some (.punctuator .leftParen) => call k start true object
  | _ => memberOfName start true object

/-- One more member, template or, where `calls` holds, call or optional access after an
expression, if there is one. -/
def access? (k : Deeper) (start : Option Position) (calls : Bool) (object : Shaped Node) :
    Parser (Option (Shaped Node)) := do
  match ← look with
  | some (.punctuator .dot) =>
    punctuator .dot
    return some (← memberOfName start false object)
  | some (.punctuator .leftBracket) => return some (← memberOfIndex k start false object)
  | some .template => return some (← tagged start object)
  | some (.punctuator .leftParen) =>
    if calls then return some (← call k start false object) else return none
  | some (.punctuator .optionalChain) =>
    if calls then return some (← optionalAccess k start object) else return none
  | _ => return none

/-- All members, templates, calls and optional accesses after an expression. -/
def accesses (k : Deeper) (start : Option Position) (calls : Bool) :
    Nat → Shaped Node → Parser (Shaped Node)
  | 0, _ => fail
  | fuel + 1, object => do
    match ← access? k start calls object with
    | some longer => accesses k start calls fuel longer
    | none => return object

/-- The operand of `new`: what may be constructed, with its members. -/
def constructed (k : Deeper) : Parser Construction := do
  let start ← place
  let first : Construction ←
    if (← look) = some (.word .kwNew) then k.construction
    else do pure ⟨(← primary k).node, true⟩
  if first.extensible then
    return ⟨← accesses k start false ((← left) + 1) first.node, true⟩
  else return first

/-- `new` with its operand, and with arguments if there are any; or `new.target`. -/
def construction (k : Deeper) : Parser Construction := do
  let start ← place
  word .kwNew
  if (← look) = some (.punctuator .dot) then
    return ⟨← metaProperty start "new" "target", true⟩
  let callee ← constructed k
  if callee.extensible && (← look) = some (.punctuator .leftParen) then
    let args ← arguments k
    return ⟨do
      let callee ← callee.node
      return .mk start (.newExpression (some callee) (← args)), true⟩
  return ⟨do return .mk start (.newExpression (some (← callee.node)) []), false⟩

/-- `import` of an expression, from its parenthesis on. -/
def importCall (k : Deeper) (start : Option Position) : Parser (Shaped Node) := do
  word .kwImport
  punctuator .leftParen
  let source ← k.assignment
  punctuator .rightParen
  return do return .mk start (.importExpression (some (← source)))

/-- What members and calls may follow, and what it is on its own. -/
def leading (k : Deeper) (start : Option Position) : Parser (Construction × Operand) := do
  match ← look with
  | some (.word .kwNew) =>
    let made ← construction k
    return (made, .plain made.node)
  | some (.word .kwImport) =>
    let node ←
      if (← lookFurther) = some (.punctuator .leftParen) then importCall k start
      else pure (← primary k).node
    return (⟨node, true⟩, .plain node)
  | _ =>
    let operand ← primary k
    return (⟨operand.node, true⟩, operand)

/-- An expression with its members and calls, from what it starts with on. -/
def extended (k : Deeper) (start : Option Position) (first : Construction) (alone : Operand) :
    Parser Operand := do
  if !first.extensible then return alone
  match ← access? k start true first.node with
  | none => return alone
  | some longer => return .plain (← accesses k start true ((← left) + 1) longer)

/-- What may stand on the left side of an assignment: an expression with its members and calls. -/
def leftHandSide (k : Deeper) : Parser Operand := do
  let start ← place
  let (first, alone) ← leading k start
  extended k start first alone

/-! ## Operators with one operand -/

def countingOf (start : Option Position) (operator : Text) (before : Bool) (target : Shaped Node) :
    Shaped Node := do
  let target ← target
  if target.isTarget then return .mk start (.updateExpression operator (some target) before)
  else .error (.error .invalidUpdateTarget start)

/-- An expression, perhaps with a counting operator before or after it. -/
def update (k : Deeper) : Parser Operand := do
  let start ← place
  let updates (t : Option Terminal) : Bool := (t.map Terminal.isUpdateOperator).getD false
  if updates (← look) then
    let operator ← takeIf Terminal.isUpdateOperator
    let target ← k.unary
    return .plain (countingOf start operator.text true target)
  let operand ← leftHandSide k
  if updates (← look) then
    let operator ← takeIf Terminal.isUpdateOperator
    return .plain (countingOf start operator.text false operand.node)
  return operand

/-- Whether an operator stands before its operand here, counting ones not included. -/
def startsUnary (t : Option Terminal) : Bool :=
  t = some (.word .kwAwait) || (t.map Terminal.isUnaryOperator).getD false

/-- An operator before its operand. -/
def prefixed (k : Deeper) : Parser (Shaped Node) := do
  let start ← place
  if ← taken (.word .kwAwait) then
    let operand ← k.unary
    return do return .mk start (.awaitExpression (some (← operand)))
  let operator ← takeIf Terminal.isUnaryOperator
  let operand ← k.unary
  return do return .mk start (.unaryExpression operator.text (some (← operand)))

/-- An expression, perhaps with operators before it. -/
def unary (k : Deeper) : Parser Operand := do
  if startsUnary (← look) then return .plain (← prefixed k)
  update k

/-! ## Operators with two operands -/

/-- Two operands and the operator between them. -/
def binaryOf (start : Option Position) (logical : Bool) (operator : Text)
    (left right : Shaped Node) : Shaped Node := do
  let left ← left
  let right ← right
  return .mk start
    (if logical then .logicalExpression operator (some left) (some right)
    else .binaryExpression operator (some left) (some right))

/-- A power, or an operand with operators before it, which may not be the base of a power. -/
def exponent (k : Deeper) : Parser Operand := do
  let start ← place
  if startsUnary (← look) then return .plain (← prefixed k)
  let base ← update k
  if (← look) = some (.punctuator .power) then
    let operator ← take (.punctuator .power)
    let power ← k.exponent
    return .plain (binaryOf start false operator.text base.node power)
  return base

/-- The operators of a level; a higher level binds less tightly. -/
def levelOperators : Nat → List Terminal
  | 1 => [.punctuator .star, .punctuator .slash, .punctuator .percent]
  | 2 => [.punctuator .plus, .punctuator .minus]
  | 3 => [.punctuator .shiftLeft, .punctuator .shiftRight, .punctuator .shiftRightZero]
  | 4 => [.punctuator .less, .punctuator .greater, .punctuator .lessEqual,
      .punctuator .greaterEqual, .word .kwInstanceof, .word .kwIn]
  | 5 => [.punctuator .equal, .punctuator .notEqual, .punctuator .identical,
      .punctuator .notIdentical]
  | 6 => [.punctuator .ampersand]
  | 7 => [.punctuator .caret]
  | 8 => [.punctuator .bar]
  | 9 => [.punctuator .logicalAnd]
  | 10 => [.punctuator .logicalOr, .punctuator .nullish]
  | _ => []

/-- The loosest level of operators between two operands. -/
def loosestLevel : Nat := 10

/-- Whether the operators of a level decide by their left operand alone. -/
def isLogicalLevel (level : Nat) : Bool := level = 9 || level = 10

/-- The operators of one level after a first operand, joined from left to right. -/
def moreOperands (level : Nat) (start : Option Position) (operand : Parser Operand) :
    Nat → Operand → Parser Operand
  | 0, _ => fail
  | fuel + 1, first => do
    let isOperator (t : Terminal) : Bool := (levelOperators level).contains t
    if ((← look).map isOperator).getD false then
      let operator ← takeIf isOperator
      let right ← operand
      let joined := binaryOf start (isLogicalLevel level) operator.text first.node right.node
      moreOperands level start operand fuel (.plain joined)
    else return first

/-- Operands joined by the operators up to a level. -/
def level (k : Deeper) : Nat → Parser Operand
  | 0 => exponent k
  | n + 1 => do
    let start ← place
    let first ← level k n
    moreOperands (n + 1) start (level k n) ((← left) + 1) first

/-! ## Conditions, assignments, arrow functions -/

/-- An expression, perhaps as the condition of two others. -/
def conditional (k : Deeper) : Parser Operand := do
  let start ← place
  let test ← level k loosestLevel
  if ← taken (.punctuator .question) then
    let consequent ← k.assignment
    punctuator .colon
    let alternate ← k.assignment
    return .plain do
      let test ← test.node
      let consequent ← consequent
      return .mk start (.conditionalExpression (some test) (some consequent) (some (← alternate)))
  return test

/-- An arrow function from its arrow on; the body is built before the parameters. -/
def arrowRest (k : Deeper) (start : Option Position) (isAsync : Bool)
    (params : Shaped (List Node)) : Parser (Shaped Node) := do
  punctuator .arrow
  let body ←
    if (← look) = some (.punctuator .leftBrace) then block k else k.assignment
  return do
    let body ← body
    return .mk start (.arrowFunctionExpression (← params) (some body) isAsync)

/-- Whether an asynchronous arrow function starts with these two terminals. -/
def startsAsyncArrow (first second : Option Terminal) : Bool :=
  first = some (.word .kwAsync) &&
    (second = some (.punctuator .leftParen) || (second.map Terminal.isName).getD false)

/-- An asynchronous arrow function. -/
def asyncArrow (k : Deeper) : Parser (Shaped Node) := do
  let start ← place
  word .kwAsync
  let head ← if (← look) = some (.punctuator .leftParen) then parenthesized k else primary k
  match head.parameters with
  | some params => arrowRest k start true params
  | none => fail

/-- `yield`, perhaps with an operand, perhaps delegating to it. -/
def yieldExpression (k : Deeper) : Parser (Shaped Node) := do
  let start ← place
  word .kwYield
  if ← taken (.punctuator .star) then
    let operand ← k.assignment
    return do return .mk start (.yieldExpression (some (← operand)) true)
  if ((← look).map Terminal.startsExpression).getD false then
    let operand ← k.assignment
    return do return .mk start (.yieldExpression (some (← operand)) false)
  return .ok (.mk start (.yieldExpression none false))

/-- An assignment to what has been read, from the operator on. -/
def assignmentRest (k : Deeper) (start : Option Position) (target : Shaped Node) :
    Parser (Shaped Node) := do
  let operator ← takeIf Terminal.isAssignmentOperator
  let value ← k.assignment
  return do
    let target ← (← target).asTarget operator.text start
    return .mk start (.assignmentExpression operator.text (some target) (some (← value)))

/-- An expression without commas. -/
def assignment (k : Deeper) : Parser (Shaped Node) := do
  let start ← place
  let first ← look
  if first = some (.word .kwYield) then return ← yieldExpression k
  if startsAsyncArrow first (← lookFurther) then return ← asyncArrow k
  let operand ← conditional k
  match ← look, operand.parameters with
  | some (.punctuator .arrow), some params => arrowRest k start false params
  | some next, _ =>
    if next.isAssignmentOperator then assignmentRest k start operand.node
    else return operand.node
  | none, _ => return operand.node

def expression (k : Deeper) : Parser (Shaped Node) := commaExpression (assignment k)

end ModuleLowering.Parser
