import ModuleLowering.Syntax.Parse.Statement

/-!
# Module items

The rules for what stands at the top of a module: imports, exports and statements.
-/

set_option autoImplicit false

namespace ModuleLowering.Parser

/-! ## Names across modules -/

/-- The name under which a module publishes something: a name, a string, or `default`. -/
def exportName : Parser (Shaped Node) := do
  let start ← place
  match ← look with
  | some .string => stringLiteral
  | some (.word .kwDefault) =>
    word .kwDefault
    return .ok (.mk start (.identifier "default"))
  | _ => return .ok (← identifier)

/-! ## Imports -/

/-- The local name of an import that gives none of its own. -/
def localNameOf (start : Option Position) (imported : Node) : Shaped Node :=
  match imported.name? with
  | some name =>
    if name = "default" then .error (.error .importNeedsLocalName start) else .ok imported
  | none => .error (.error .importNeedsLocalName start)

/-- One name of an import, perhaps with a local name of its own. -/
def importSpecifier : Parser (Shaped Node) := do
  let start ← place
  let imported ← exportName
  let renamed ← if ← taken (.word .kwAs) then some <$> identifier else pure none
  return do
    let imported ← imported
    let name ←
      match renamed with
      | some name => .ok name
      | none => localNameOf start imported
    return .mk start (.importSpecifier (some name) (some imported))

/-- The import of a whole module under a name. -/
def namespaceImport : Parser Node := do
  let start ← place
  punctuator .star
  word .kwAs
  let name ← identifier
  return .mk start (.importNamespaceSpecifier (some name))

/-- The import of a whole module, or of names between braces. -/
def importedNames : Parser (Shaped (List Node)) := do
  if (← look) = some (.punctuator .star) then return .ok [← namespaceImport]
  discard (take .objectBrace)
  return inOrder (← items importSpecifier (.punctuator .rightBrace))

/-- What an import binds: a default name, a namespace, names, or a default name and one of the
others. -/
def importClause : Parser (Shaped (List Node)) := do
  let start ← place
  if ((← look).map Terminal.isName).getD false then
    let name ← identifier
    let default_ : Node := .mk start (.importDefaultSpecifier (some name))
    if ← taken (.punctuator .comma) then
      return (← importedNames).map (default_ :: ·)
    return .ok [default_]
  importedNames

def importDeclaration : Parser (Shaped Node) := do
  let start ← place
  word .kwImport
  if (← look) = some .string then
    let source ← stringLiteral
    terminator
    return do return .mk start (.importDeclaration [] (some (← source)))
  let clause ← importClause
  word .kwFrom
  let source ← stringLiteral
  terminator
  return do
    let specifiers ← clause
    return .mk start (.importDeclaration specifiers (some (← source)))

/-- Whether an expression starts with `import` and this terminal. -/
def importsInExpression (second : Option Terminal) : Bool :=
  second = some (.punctuator .leftParen) || second = some (.punctuator .dot)

/-! ## Exports -/

/-- One exported name, perhaps under another one. -/
def exportSpecifier : Parser (Shaped Node) := do
  let start ← place
  let name ← exportName
  let renamed ← if ← taken (.word .kwAs) then some <$> exportName else pure none
  return do
    let name ← name
    let exported ←
      match renamed with
      | some exported => exported
      | none => .ok name
    return .mk start (.exportSpecifier (some name) (some exported))

/-- `export` of names between braces, perhaps from another module. -/
def namedExports (start : Option Position) : Parser (Shaped Node) := do
  discard (take .objectBrace)
  let specifiers ← items exportSpecifier (.punctuator .rightBrace)
  let source ← if ← taken (.word .kwFrom) then some <$> stringLiteral else pure none
  terminator
  return do
    let specifiers ← inOrder specifiers
    return .mk start (.exportNamedDeclaration none specifiers (← source.mapM id))

/-- `export` of all that another module exports, perhaps as one name; the module is built before
the name. -/
def wholeExport (start : Option Position) : Parser (Shaped Node) := do
  punctuator .star
  let exported ← if ← taken (.word .kwAs) then some <$> exportName else pure none
  word .kwFrom
  let source ← stringLiteral
  terminator
  return do
    let source ← source
    return .mk start (.exportAllDeclaration (some source) (← exported.mapM id))

/-- What `export default` exports: a function, a class, or the value of an expression. -/
def defaultExport (k : Deeper) (start : Option Position) : Parser (Shaped Node) := do
  word .kwDefault
  let first ← look
  let declaration ←
    if startsFunction first (← lookFurther) then functionDeclaration k true
    else if first = some .classDeclaration then classDeclaration k true
    else do
      let value ← assignment k
      terminator
      pure value
  return do return .mk start (.exportDefaultDeclaration (some (← declaration)))

def exportedDeclaration (k : Deeper) (start : Option Position) : Parser (Shaped Node) := do
  let declaration ←
    if ((← look).map Terminal.declaresVariables).getD false then do
      let declared ← declaredVariables k
      terminator
      pure declared
    else if (← look) = some .classDeclaration then classDeclaration k false
    else functionDeclaration k false
  return do return .mk start (.exportNamedDeclaration (some (← declaration)) [] none)

def exportDeclaration (k : Deeper) : Parser (Shaped Node) := do
  let start ← place
  word .kwExport
  match ← look with
  | some (.word .kwDefault) => defaultExport k start
  | some .objectBrace => namedExports start
  | some (.punctuator .star) => wholeExport start
  | _ => exportedDeclaration k start

/-! ## The module -/

def item (k : Deeper) : Parser (Shaped Node) := do
  match ← look with
  | some (.word .kwExport) => exportDeclaration k
  | some (.word .kwImport) =>
    if importsInExpression (← lookFurther) then statement k else importDeclaration
  | _ => statement k

def moduleItems (k : Deeper) : Parser (List (Shaped Node)) := do
  manyUntil (item k) Option.isNone ((← left) + 1)

end ModuleLowering.Parser

namespace ModuleLowering

/-- The parsers for what lies at most `fuel` tokens deep. -/
def Deeper.within : Nat → Deeper
  | 0 => .nothing
  | fuel + 1 =>
    let k := within fuel
    { assignment := Parser.assignment k
      exponent := return (← Parser.exponent k).node
      unary := return (← Parser.unary k).node
      leftHandSide := return (← Parser.leftHandSide k).node
      construction := Parser.construction k
      binding := Parser.binding k
      statement := Parser.statement k }

end ModuleLowering
