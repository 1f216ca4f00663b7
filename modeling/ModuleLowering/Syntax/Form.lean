import ModuleLowering.Syntax.Value

/-!
# Forms

The form of a syntax node: which kind of node it is, with its data and its parts. A form is a
shape with room for parts of any type, so that passes over a tree can hand on what they made of the
parts. Every part may be absent: some are optional, and a pass that removes nodes leaves gaps.
-/

set_option autoImplicit false

namespace ModuleLowering

/-- The form of a syntax node whose parts are of type `α`. -/
inductive Form (α : Type) where
  -- Expressions
  | identifier (name : Text)
  | literal (value : Value) (raw : Option Text)
  | regExpLiteral (raw : Text)
  | templateLiteral (raw : Text)
  | taggedTemplateExpression (tag quasi : Option α)
  | thisExpression
  | superExpression
  | arrayExpression (elements : List (Option α))
  | property (key value : Option α) (computed shorthand method : Bool) (kind : Text)
  | objectExpression (properties : List α)
  | spreadElement (argument : Option α)
  | functionExpression (id : Option α) (params : List α) (body : Option α)
      (isAsync generator : Bool)
  | arrowFunctionExpression (params : List α) (body : Option α) (isAsync : Bool)
  | classExpression (id superclass : Option α) (body : List α)
  | unaryExpression (operator : Text) (argument : Option α)
  | updateExpression (operator : Text) (argument : Option α) (before : Bool)
  | binaryExpression (operator : Text) (left right : Option α)
  | logicalExpression (operator : Text) (left right : Option α)
  | assignmentExpression (operator : Text) (left right : Option α)
  | conditionalExpression (test consequent alternate : Option α)
  | callExpression (callee : Option α) (arguments : List α) (optional : Bool)
  | newExpression (callee : Option α) (arguments : List α)
  | memberExpression (object member : Option α) (computed optional : Bool)
  | importExpression (source : Option α)
  | metaProperty (object member : Option α)
  | sequenceExpression (expressions : List α)
  | awaitExpression (argument : Option α)
  | yieldExpression (argument : Option α) (delegate : Bool)
  | invalid
  -- Patterns
  | arrayPattern (elements : List (Option α))
  | objectPattern (properties : List α)
  | assignmentPattern (left right : Option α)
  | restElement (argument : Option α)
  -- Statements and their parts
  | expressionStatement (expression : Option α)
  | blockStatement (body : List α)
  | emptyStatement
  | variableDeclarator (id init : Option α)
  | variableDeclaration (kind : Text) (declarations : List α)
  | functionDeclaration (id : Option α) (params : List α) (body : Option α)
      (isAsync generator : Bool)
  | methodDefinition (key value : Option α) (kind : Text) (isStatic computed : Bool)
  | propertyDefinition (key value : Option α) (isStatic computed : Bool)
  | classDeclaration (id superclass : Option α) (body : List α)
  | returnStatement (argument : Option α)
  | ifStatement (test consequent alternate : Option α)
  | forStatement (init test update body : Option α)
  | forInStatement (left right body : Option α)
  | forOfStatement (left right body : Option α) (isAwait : Bool)
  | whileStatement (test body : Option α)
  | doWhileStatement (body test : Option α)
  | throwStatement (argument : Option α)
  | catchClause (param body : Option α)
  | tryStatement (block handler finalizer : Option α)
  | switchCase (test : Option α) (consequent : List α)
  | switchStatement (discriminant : Option α) (cases : List α)
  | breakStatement
  | continueStatement
  -- Module declarations and the module
  | importSpecifier (name imported : Option α)
  | importDefaultSpecifier (name : Option α)
  | importNamespaceSpecifier (name : Option α)
  | importDeclaration (specifiers : List α) (source : Option α)
  | exportSpecifier (name exported : Option α)
  | exportNamedDeclaration (declaration : Option α) (specifiers : List α) (source : Option α)
  | exportDefaultDeclaration (declaration : Option α)
  | exportAllDeclaration (source exported : Option α)
  | program (body : List α)
deriving BEq

/-- A part of a form or a list of them; array elements may leave holes. -/
inductive Slot (α : Type) where
  | one (part : Option α)
  | many (parts : List α)
  | sparse (parts : List (Option α))

namespace Slot

/-- The parts that a slot holds, in order. -/
def parts {α : Type} : Slot α → List α
  | one part => part.toList
  | many parts => parts
  | sparse parts => parts.filterMap id

end Slot

namespace Form

variable {α β : Type}

/-- The name of the kind of node. -/
def typeName : Form α → String
  | .identifier .. => "Identifier"
  | .literal .. => "Literal"
  | .regExpLiteral .. => "RegExpLiteral"
  | .templateLiteral .. => "TemplateLiteral"
  | .taggedTemplateExpression .. => "TaggedTemplateExpression"
  | .thisExpression => "ThisExpression"
  | .superExpression => "Super"
  | .arrayExpression .. => "ArrayExpression"
  | .property .. => "Property"
  | .objectExpression .. => "ObjectExpression"
  | .spreadElement .. => "SpreadElement"
  | .functionExpression .. => "FunctionExpression"
  | .arrowFunctionExpression .. => "ArrowFunctionExpression"
  | .classExpression .. => "ClassExpression"
  | .unaryExpression .. => "UnaryExpression"
  | .updateExpression .. => "UpdateExpression"
  | .binaryExpression .. => "BinaryExpression"
  | .logicalExpression .. => "LogicalExpression"
  | .assignmentExpression .. => "AssignmentExpression"
  | .conditionalExpression .. => "ConditionalExpression"
  | .callExpression .. => "CallExpression"
  | .newExpression .. => "NewExpression"
  | .memberExpression .. => "MemberExpression"
  | .importExpression .. => "ImportExpression"
  | .metaProperty .. => "MetaProperty"
  | .sequenceExpression .. => "SequenceExpression"
  | .awaitExpression .. => "AwaitExpression"
  | .yieldExpression .. => "YieldExpression"
  | .invalid => "Invalid"
  | .arrayPattern .. => "ArrayPattern"
  | .objectPattern .. => "ObjectPattern"
  | .assignmentPattern .. => "AssignmentPattern"
  | .restElement .. => "RestElement"
  | .expressionStatement .. => "ExpressionStatement"
  | .blockStatement .. => "BlockStatement"
  | .emptyStatement => "EmptyStatement"
  | .variableDeclarator .. => "VariableDeclarator"
  | .variableDeclaration .. => "VariableDeclaration"
  | .functionDeclaration .. => "FunctionDeclaration"
  | .methodDefinition .. => "MethodDefinition"
  | .propertyDefinition .. => "PropertyDefinition"
  | .classDeclaration .. => "ClassDeclaration"
  | .returnStatement .. => "ReturnStatement"
  | .ifStatement .. => "IfStatement"
  | .forStatement .. => "ForStatement"
  | .forInStatement .. => "ForInStatement"
  | .forOfStatement .. => "ForOfStatement"
  | .whileStatement .. => "WhileStatement"
  | .doWhileStatement .. => "DoWhileStatement"
  | .throwStatement .. => "ThrowStatement"
  | .catchClause .. => "CatchClause"
  | .tryStatement .. => "TryStatement"
  | .switchCase .. => "SwitchCase"
  | .switchStatement .. => "SwitchStatement"
  | .breakStatement => "BreakStatement"
  | .continueStatement => "ContinueStatement"
  | .importSpecifier .. => "ImportSpecifier"
  | .importDefaultSpecifier .. => "ImportDefaultSpecifier"
  | .importNamespaceSpecifier .. => "ImportNamespaceSpecifier"
  | .importDeclaration .. => "ImportDeclaration"
  | .exportSpecifier .. => "ExportSpecifier"
  | .exportNamedDeclaration .. => "ExportNamedDeclaration"
  | .exportDefaultDeclaration .. => "ExportDefaultDeclaration"
  | .exportAllDeclaration .. => "ExportAllDeclaration"
  | .program .. => "Program"

def slots : Form α → List (Slot α)
  | .taggedTemplateExpression tag quasi => [.one tag, .one quasi]
  | .arrayExpression elements => [.sparse elements]
  | .property key value _ _ _ _ => [.one key, .one value]
  | .objectExpression properties => [.many properties]
  | .spreadElement argument => [.one argument]
  | .functionExpression id params body _ _ => [.one id, .many params, .one body]
  | .arrowFunctionExpression params body _ => [.many params, .one body]
  | .classExpression id superclass body => [.one id, .one superclass, .many body]
  | .unaryExpression _ argument => [.one argument]
  | .updateExpression _ argument _ => [.one argument]
  | .binaryExpression _ left right => [.one left, .one right]
  | .logicalExpression _ left right => [.one left, .one right]
  | .assignmentExpression _ left right => [.one left, .one right]
  | .conditionalExpression test consequent alternate =>
    [.one test, .one consequent, .one alternate]
  | .callExpression callee arguments _ => [.one callee, .many arguments]
  | .newExpression callee arguments => [.one callee, .many arguments]
  | .memberExpression object member _ _ => [.one object, .one member]
  | .importExpression source => [.one source]
  | .metaProperty object member => [.one object, .one member]
  | .sequenceExpression expressions => [.many expressions]
  | .awaitExpression argument => [.one argument]
  | .yieldExpression argument _ => [.one argument]
  | .arrayPattern elements => [.sparse elements]
  | .objectPattern properties => [.many properties]
  | .assignmentPattern left right => [.one left, .one right]
  | .restElement argument => [.one argument]
  | .expressionStatement expression => [.one expression]
  | .blockStatement body => [.many body]
  | .variableDeclarator id init => [.one id, .one init]
  | .variableDeclaration _ declarations => [.many declarations]
  | .functionDeclaration id params body _ _ => [.one id, .many params, .one body]
  | .methodDefinition key value _ _ _ => [.one key, .one value]
  | .propertyDefinition key value _ _ => [.one key, .one value]
  | .classDeclaration id superclass body => [.one id, .one superclass, .many body]
  | .returnStatement argument => [.one argument]
  | .ifStatement test consequent alternate => [.one test, .one consequent, .one alternate]
  | .forStatement init test update body => [.one init, .one test, .one update, .one body]
  | .forInStatement left right body => [.one left, .one right, .one body]
  | .forOfStatement left right body _ => [.one left, .one right, .one body]
  | .whileStatement test body => [.one test, .one body]
  | .doWhileStatement body test => [.one body, .one test]
  | .throwStatement argument => [.one argument]
  | .catchClause param body => [.one param, .one body]
  | .tryStatement block handler finalizer => [.one block, .one handler, .one finalizer]
  | .switchCase test consequent => [.one test, .many consequent]
  | .switchStatement discriminant cases => [.one discriminant, .many cases]
  | .importSpecifier name imported => [.one name, .one imported]
  | .importDefaultSpecifier name => [.one name]
  | .importNamespaceSpecifier name => [.one name]
  | .importDeclaration specifiers source => [.many specifiers, .one source]
  | .exportSpecifier name exported => [.one name, .one exported]
  | .exportNamedDeclaration declaration specifiers source =>
    [.one declaration, .many specifiers, .one source]
  | .exportDefaultDeclaration declaration => [.one declaration]
  | .exportAllDeclaration source exported => [.one source, .one exported]
  | .program body => [.many body]
  | _ => []

def parts (form : Form α) : List α := form.slots.flatMap Slot.parts

/-- Rebuilds a form. An action says for each part what takes its place; a part of a list for which
nothing does is left out, and other parts are then absent. Holes stay. -/
def editM {m : Type → Type} [Monad m] (onPart onItem : α → m (Option β)) :
    Form α → m (Form β) :=
  let part (p : Option α) : m (Option β) :=
    match p with
    | none => pure none
    | some a => onPart a
  let list (items : List α) : m (List β) := items.filterMapM onItem
  let sparse (items : List (Option α)) : m (List (Option β)) :=
    items.filterMapM fun
      | none => pure (some none)
      | some a => return (← onItem a).map some
  fun
  | .identifier name => pure (.identifier name)
  | .literal value raw => pure (.literal value raw)
  | .regExpLiteral raw => pure (.regExpLiteral raw)
  | .templateLiteral raw => pure (.templateLiteral raw)
  | .taggedTemplateExpression tag quasi =>
    return .taggedTemplateExpression (← part tag) (← part quasi)
  | .thisExpression => pure .thisExpression
  | .superExpression => pure .superExpression
  | .arrayExpression elements => return .arrayExpression (← sparse elements)
  | .property key value computed shorthand method kind =>
    return .property (← part key) (← part value) computed shorthand method kind
  | .objectExpression properties => return .objectExpression (← list properties)
  | .spreadElement argument => return .spreadElement (← part argument)
  | .functionExpression id params body isAsync generator =>
    return .functionExpression (← part id) (← list params) (← part body) isAsync generator
  | .arrowFunctionExpression params body isAsync =>
    return .arrowFunctionExpression (← list params) (← part body) isAsync
  | .classExpression id superclass body =>
    return .classExpression (← part id) (← part superclass) (← list body)
  | .unaryExpression operator argument => return .unaryExpression operator (← part argument)
  | .updateExpression operator argument before =>
    return .updateExpression operator (← part argument) before
  | .binaryExpression operator left right =>
    return .binaryExpression operator (← part left) (← part right)
  | .logicalExpression operator left right =>
    return .logicalExpression operator (← part left) (← part right)
  | .assignmentExpression operator left right =>
    return .assignmentExpression operator (← part left) (← part right)
  | .conditionalExpression test consequent alternate =>
    return .conditionalExpression (← part test) (← part consequent) (← part alternate)
  | .callExpression callee arguments optional =>
    return .callExpression (← part callee) (← list arguments) optional
  | .newExpression callee arguments => return .newExpression (← part callee) (← list arguments)
  | .memberExpression object member computed optional =>
    return .memberExpression (← part object) (← part member) computed optional
  | .importExpression source => return .importExpression (← part source)
  | .metaProperty object member => return .metaProperty (← part object) (← part member)
  | .sequenceExpression expressions => return .sequenceExpression (← list expressions)
  | .awaitExpression argument => return .awaitExpression (← part argument)
  | .yieldExpression argument delegate => return .yieldExpression (← part argument) delegate
  | .invalid => pure .invalid
  | .arrayPattern elements => return .arrayPattern (← sparse elements)
  | .objectPattern properties => return .objectPattern (← list properties)
  | .assignmentPattern left right => return .assignmentPattern (← part left) (← part right)
  | .restElement argument => return .restElement (← part argument)
  | .expressionStatement expression => return .expressionStatement (← part expression)
  | .blockStatement body => return .blockStatement (← list body)
  | .emptyStatement => pure .emptyStatement
  | .variableDeclarator id init => return .variableDeclarator (← part id) (← part init)
  | .variableDeclaration kind declarations =>
    return .variableDeclaration kind (← list declarations)
  | .functionDeclaration id params body isAsync generator =>
    return .functionDeclaration (← part id) (← list params) (← part body) isAsync generator
  | .methodDefinition key value kind isStatic computed =>
    return .methodDefinition (← part key) (← part value) kind isStatic computed
  | .propertyDefinition key value isStatic computed =>
    return .propertyDefinition (← part key) (← part value) isStatic computed
  | .classDeclaration id superclass body =>
    return .classDeclaration (← part id) (← part superclass) (← list body)
  | .returnStatement argument => return .returnStatement (← part argument)
  | .ifStatement test consequent alternate =>
    return .ifStatement (← part test) (← part consequent) (← part alternate)
  | .forStatement init test update body =>
    return .forStatement (← part init) (← part test) (← part update) (← part body)
  | .forInStatement left right body =>
    return .forInStatement (← part left) (← part right) (← part body)
  | .forOfStatement left right body isAwait =>
    return .forOfStatement (← part left) (← part right) (← part body) isAwait
  | .whileStatement test body => return .whileStatement (← part test) (← part body)
  | .doWhileStatement body test => return .doWhileStatement (← part body) (← part test)
  | .throwStatement argument => return .throwStatement (← part argument)
  | .catchClause param body => return .catchClause (← part param) (← part body)
  | .tryStatement block handler finalizer =>
    return .tryStatement (← part block) (← part handler) (← part finalizer)
  | .switchCase test consequent => return .switchCase (← part test) (← list consequent)
  | .switchStatement discriminant cases =>
    return .switchStatement (← part discriminant) (← list cases)
  | .breakStatement => pure .breakStatement
  | .continueStatement => pure .continueStatement
  | .importSpecifier name imported => return .importSpecifier (← part name) (← part imported)
  | .importDefaultSpecifier name => return .importDefaultSpecifier (← part name)
  | .importNamespaceSpecifier name => return .importNamespaceSpecifier (← part name)
  | .importDeclaration specifiers source =>
    return .importDeclaration (← list specifiers) (← part source)
  | .exportSpecifier name exported => return .exportSpecifier (← part name) (← part exported)
  | .exportNamedDeclaration declaration specifiers source =>
    return .exportNamedDeclaration (← part declaration) (← list specifiers) (← part source)
  | .exportDefaultDeclaration declaration => return .exportDefaultDeclaration (← part declaration)
  | .exportAllDeclaration source exported =>
    return .exportAllDeclaration (← part source) (← part exported)
  | .program body => return .program (← list body)

/-- A form with its parts replaced one by one. -/
def map (f : α → β) (form : Form α) : Form β :=
  Id.run (form.editM (fun a => some (f a)) (fun a => some (f a)))

end Form

end ModuleLowering
