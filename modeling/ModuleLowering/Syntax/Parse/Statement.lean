import ModuleLowering.Syntax.Parse.Expression

/-!
# Statements

The rules for statements. An `else` belongs to the nearest `if`. Where a statement has several
parts that may be ill-shaped, the order in which they are built decides which error is reported.
-/

set_option autoImplicit false

namespace ModuleLowering.Parser

/-- An expression inside a statement. -/
def innerExpression (k : Deeper) : Parser (Shaped Node) := commaExpression k.assignment

/-- An expression in parentheses, as the head of a statement. -/
def condition (k : Deeper) : Parser (Shaped Node) := do
  punctuator .leftParen
  let test ← innerExpression k
  punctuator .rightParen
  return test

/-! ## Variables -/

def declaringWord : Parser Token := takeIf Terminal.declaresVariables

/-- One variable, perhaps with a value, from what follows its target on; the value is built
first. -/
def declaratorRest (k : Deeper) (start : Option Position) (target : Shaped Node) :
    Parser (Shaped Node) := do
  let value ← if ← taken (.punctuator .assign) then some <$> k.assignment else pure none
  return do
    let value ← value.mapM id
    return .mk start (.variableDeclarator (some (← target)) value)

/-- One variable, perhaps with a value. -/
def declarator (k : Deeper) : Parser (Shaped Node) := do
  let start ← place
  let target ← binding k
  declaratorRest k start target

def declarationOf (kind : Token) (declarators : List (Shaped Node)) : Shaped Node := do
  return .mk (some kind.start) (.variableDeclaration kind.text (← inOrder declarators))

def declaredVariables (k : Deeper) : Parser (Shaped Node) := do
  let kind ← declaringWord
  return declarationOf kind (← parts (declarator k))

/-! ## Conditions and loops -/

/-- `if` with its branches; the second branch is built first. -/
def ifStatement (k : Deeper) : Parser (Shaped Node) := do
  let start ← place
  word .kwIf
  let test ← condition k
  let consequent ← k.statement
  let alternate ← if ← taken (.word .kwElse) then some <$> k.statement else pure none
  return do
    let alternate ← alternate.mapM id
    let test ← test
    return .mk start (.ifStatement (some test) (some (← consequent)) alternate)

/-- `while`. -/
def whileStatement (k : Deeper) : Parser (Shaped Node) := do
  let start ← place
  word .kwWhile
  let test ← condition k
  let body ← k.statement
  return do
    let test ← test
    return .mk start (.whileStatement (some test) (some (← body)))

/-- `do` with its condition. -/
def doStatement (k : Deeper) : Parser (Shaped Node) := do
  let start ← place
  word .kwDo
  let body ← k.statement
  word .kwWhile
  let test ← condition k
  terminator
  return do
    let body ← body
    return .mk start (.doWhileStatement (some body) (some (← test)))

/-- An expression unless `stop` comes next. -/
def expressionUnless (k : Deeper) (stop : Punctuator) : Parser (Option (Shaped Node)) := do
  if (← look) = some (.punctuator stop) then return none
  return some (← innerExpression k)

/-- The rest of a `for` with three parts, from its first semicolon on. -/
def forRest (k : Deeper) (start : Option Position) (init : Option (Shaped Node)) :
    Parser (Shaped Node) := do
  punctuator .semicolon
  let test ← expressionUnless k .semicolon
  punctuator .semicolon
  let step ← expressionUnless k .rightParen
  punctuator .rightParen
  let body ← k.statement
  return do
    let init ← init.mapM id
    let test ← test.mapM id
    let step ← step.mapM id
    return .mk start (.forStatement init test step (some (← body)))

/-- The variable that a `for` over the parts of something declares. -/
def loopVariable (kind : Token) (start : Option Position) (target : Shaped Node) :
    Shaped Node := do
  let declared : Node := .mk start (.variableDeclarator (some (← target)) none)
  return .mk (some kind.start) (.variableDeclaration kind.text [declared])

/-- The rest of a `for` over the keys of something, from `in` on. -/
def forInRest (k : Deeper) (start : Option Position) (declared : Shaped Node) :
    Parser (Shaped Node) := do
  word .kwIn
  let right ← innerExpression k
  punctuator .rightParen
  let body ← k.statement
  return do
    let declared ← declared
    let right ← right
    return .mk start (.forInStatement (some declared) (some right) (some (← body)))

/-- The rest of a `for` over the items of something, from `of` on. -/
def forOfRest (k : Deeper) (start : Option Position) (isAwait : Bool) (declared : Shaped Node) :
    Parser (Shaped Node) := do
  word .kwOf
  let right ← k.assignment
  punctuator .rightParen
  let body ← k.statement
  return do
    let declared ← declared
    let right ← right
    return .mk start (.forOfStatement (some declared) (some right) (some (← body)) isAwait)

/-- The rest of a `for` that starts with a declaration, from its target on. -/
def forDeclaring (k : Deeper) (start : Option Position) (isAwait : Bool) : Parser (Shaped Node) :=
  do
  let kind ← declaringWord
  let targetStart ← place
  let target ← binding k
  let declared := loopVariable kind targetStart target
  if isAwait then return ← forOfRest k start true declared
  match ← look with
  | some (.word .kwIn) => forInRest k start declared
  | some (.word .kwOf) => forOfRest k start false declared
  | _ =>
    let first ← declaratorRest k targetStart target
    let more ← moreParts (declarator k) ((← left) + 1)
    forRest k start (some (declarationOf kind (first :: more)))

/-- `for` in each of its forms. -/
def forStatement (k : Deeper) : Parser (Shaped Node) := do
  let start ← place
  word .kwFor
  let isAwait ← taken (.word .kwAwait)
  punctuator .leftParen
  if isAwait || ((← look).map Terminal.declaresVariables).getD false then
    forDeclaring k start isAwait
  else forRest k start (← expressionUnless k .semicolon)

/-! ## Jumps -/

/-- `return`, perhaps with a value. -/
def returnStatement (k : Deeper) : Parser (Shaped Node) := do
  let start ← place
  word .kwReturn
  if ← taken .terminator then return .ok (.mk start (.returnStatement none))
  let value ← innerExpression k
  terminator
  return do return .mk start (.returnStatement (some (← value)))

/-- `throw`. -/
def throwStatement (k : Deeper) : Parser (Shaped Node) := do
  let start ← place
  word .kwThrow
  let value ← innerExpression k
  terminator
  return do return .mk start (.throwStatement (some (← value)))

def wordStatement (w : Word) (form : Form Node) : Parser (Shaped Node) := do
  let start ← place
  word w
  terminator
  return .ok (.mk start form)

/-! ## `try` and `switch` -/

/-- The part of a `try` that handles an error. -/
def catchClause (k : Deeper) : Parser (Shaped Node) := do
  let start ← place
  word .kwCatch
  let param ←
    if ← taken (.punctuator .leftParen) then do
      let param ← binding k
      punctuator .rightParen
      pure (some param)
    else pure none
  let body ← block k
  return do
    let param ← param.mapM id
    return .mk start (.catchClause param (some (← body)))

/-- `try` with what handles and what follows it, at least one of them. -/
def tryStatement (k : Deeper) : Parser (Shaped Node) := do
  let start ← place
  word .kwTry
  let body ← block k
  let handler ← if (← look) = some (.word .kwCatch) then some <$> catchClause k else pure none
  let finalizer ← if ← taken (.word .kwFinally) then some <$> block k else pure none
  return do
    if handler.isNone && finalizer.isNone then throw (.error .tryWithoutHandler start)
    let body ← body
    let handler ← handler.mapM id
    return .mk start (.tryStatement (some body) handler (← finalizer.mapM id))

/-- Whether the statements of a `case` end here. -/
def endsCase (next : Option Terminal) : Bool :=
  [some (.word .kwCase), some (.word .kwDefault), some (.punctuator .rightBrace)].contains next

/-- A `case` or the `default` of a `switch`. -/
def switchCase (k : Deeper) : Parser (Shaped Node) := do
  let start ← place
  let test ←
    if ← taken (.word .kwDefault) then pure none
    else do
      word .kwCase
      some <$> innerExpression k
  punctuator .colon
  let body ← manyUntil k.statement endsCase ((← left) + 1)
  return do
    let test ← test.mapM id
    return .mk start (.switchCase test (← inOrder body))

/-- `switch`; its cases are built before what it decides on. -/
def switchStatement (k : Deeper) : Parser (Shaped Node) := do
  let start ← place
  word .kwSwitch
  let discriminant ← condition k
  punctuator .leftBrace
  let cases ← itemsUntil (switchCase k) (.punctuator .rightBrace)
  return do
    let cases ← inOrder cases
    return .mk start (.switchStatement (some (← discriminant)) cases)

/-! ## Statements -/

def expressionStatement (k : Deeper) : Parser (Shaped Node) := do
  let start ← place
  let e ← expression k
  terminator
  return do return .mk start (.expressionStatement (some (← e)))

/-- Whether a declared function starts with these two terminals. -/
def startsFunction (first second : Option Terminal) : Bool :=
  first = some .functionDeclaration ||
    (first = some (.word .kwAsync) && second = some .functionDeclaration)

def statement (k : Deeper) : Parser (Shaped Node) := do
  let start ← place
  let first ← look
  if startsFunction first (← lookFurther) then return ← functionDeclaration k false
  match first with
  | some .classDeclaration => classDeclaration k false
  | some .terminator =>
    terminator
    return .ok (.mk start .emptyStatement)
  | some (.punctuator .leftBrace) => block k
  | some (.word .kwVar) | some (.word .kwLet) | some (.word .kwConst) =>
    let declared ← declaredVariables k
    terminator
    return declared
  | some (.word .kwIf) => ifStatement k
  | some (.word .kwFor) => forStatement k
  | some (.word .kwWhile) => whileStatement k
  | some (.word .kwDo) => doStatement k
  | some (.word .kwReturn) => returnStatement k
  | some (.word .kwThrow) => throwStatement k
  | some (.word .kwBreak) => wordStatement .kwBreak .breakStatement
  | some (.word .kwContinue) => wordStatement .kwContinue .continueStatement
  | some (.word .kwTry) => tryStatement k
  | some (.word .kwSwitch) => switchStatement k
  | _ => expressionStatement k

end ModuleLowering.Parser
