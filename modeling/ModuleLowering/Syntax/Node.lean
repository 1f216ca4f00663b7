import ModuleLowering.Syntax.Form
import ModuleLowering.Token.Position

/-!
# Syntax nodes

A syntax node is a form whose parts are nodes, with the place it was read from, if any. Passes over
a tree are folds: each says what to make of a node from what it made of the parts.
-/

set_option autoImplicit false

namespace ModuleLowering

/-- A syntax node. -/
inductive Node where
  | mk (loc : Option Position) (form : Form Node)

namespace Node

def form : Node → Form Node
  | mk _ form => form

/-- Where a node was read from; nothing for a node made by a pass. -/
def loc : Node → Option Position
  | mk loc _ => loc

/-- A node made by a pass. -/
def made (form : Form Node) : Node := mk none form

instance : Inhabited Node := ⟨made .emptyStatement⟩

/-- The nodes directly below a node, in order. -/
def children (n : Node) : List Node := n.form.parts

def typeName (n : Node) : String := n.form.typeName

def withForm (n : Node) (form : Form Node) : Node := mk n.loc form

mutual

/-- Makes a value of a node from the node and the values of its parts. -/
def fold {β : Type} (f : Node → Form β → β) : Node → β
  | mk loc form => f (mk loc form) (foldForm f form)

/-- The values of the parts of a form, each in its place. -/
def foldForm {β : Type} (f : Node → Form β → β) : Form Node → Form β
  | .identifier name => .identifier name
  | .literal value raw => .literal value raw
  | .regExpLiteral raw => .regExpLiteral raw
  | .templateLiteral raw => .templateLiteral raw
  | .taggedTemplateExpression tag quasi =>
    .taggedTemplateExpression (foldPart f tag) (foldPart f quasi)
  | .thisExpression => .thisExpression
  | .superExpression => .superExpression
  | .arrayExpression elements => .arrayExpression (foldSparse f elements)
  | .property key value computed shorthand method kind =>
    .property (foldPart f key) (foldPart f value) computed shorthand method kind
  | .objectExpression properties => .objectExpression (foldList f properties)
  | .spreadElement argument => .spreadElement (foldPart f argument)
  | .functionExpression id params body isAsync generator =>
    .functionExpression (foldPart f id) (foldList f params) (foldPart f body) isAsync generator
  | .arrowFunctionExpression params body isAsync =>
    .arrowFunctionExpression (foldList f params) (foldPart f body) isAsync
  | .classExpression id superclass body =>
    .classExpression (foldPart f id) (foldPart f superclass) (foldList f body)
  | .unaryExpression operator argument => .unaryExpression operator (foldPart f argument)
  | .updateExpression operator argument before =>
    .updateExpression operator (foldPart f argument) before
  | .binaryExpression operator left right =>
    .binaryExpression operator (foldPart f left) (foldPart f right)
  | .logicalExpression operator left right =>
    .logicalExpression operator (foldPart f left) (foldPart f right)
  | .assignmentExpression operator left right =>
    .assignmentExpression operator (foldPart f left) (foldPart f right)
  | .conditionalExpression test consequent alternate =>
    .conditionalExpression (foldPart f test) (foldPart f consequent) (foldPart f alternate)
  | .callExpression callee arguments optional =>
    .callExpression (foldPart f callee) (foldList f arguments) optional
  | .newExpression callee arguments => .newExpression (foldPart f callee) (foldList f arguments)
  | .memberExpression object member computed optional =>
    .memberExpression (foldPart f object) (foldPart f member) computed optional
  | .importExpression source => .importExpression (foldPart f source)
  | .metaProperty object member => .metaProperty (foldPart f object) (foldPart f member)
  | .sequenceExpression expressions => .sequenceExpression (foldList f expressions)
  | .awaitExpression argument => .awaitExpression (foldPart f argument)
  | .yieldExpression argument delegate => .yieldExpression (foldPart f argument) delegate
  | .invalid => .invalid
  | .arrayPattern elements => .arrayPattern (foldSparse f elements)
  | .objectPattern properties => .objectPattern (foldList f properties)
  | .assignmentPattern left right => .assignmentPattern (foldPart f left) (foldPart f right)
  | .restElement argument => .restElement (foldPart f argument)
  | .expressionStatement expression => .expressionStatement (foldPart f expression)
  | .blockStatement body => .blockStatement (foldList f body)
  | .emptyStatement => .emptyStatement
  | .variableDeclarator id init => .variableDeclarator (foldPart f id) (foldPart f init)
  | .variableDeclaration kind declarations => .variableDeclaration kind (foldList f declarations)
  | .functionDeclaration id params body isAsync generator =>
    .functionDeclaration (foldPart f id) (foldList f params) (foldPart f body) isAsync generator
  | .methodDefinition key value kind isStatic computed =>
    .methodDefinition (foldPart f key) (foldPart f value) kind isStatic computed
  | .propertyDefinition key value isStatic computed =>
    .propertyDefinition (foldPart f key) (foldPart f value) isStatic computed
  | .classDeclaration id superclass body =>
    .classDeclaration (foldPart f id) (foldPart f superclass) (foldList f body)
  | .returnStatement argument => .returnStatement (foldPart f argument)
  | .ifStatement test consequent alternate =>
    .ifStatement (foldPart f test) (foldPart f consequent) (foldPart f alternate)
  | .forStatement init test update body =>
    .forStatement (foldPart f init) (foldPart f test) (foldPart f update) (foldPart f body)
  | .forInStatement left right body =>
    .forInStatement (foldPart f left) (foldPart f right) (foldPart f body)
  | .forOfStatement left right body isAwait =>
    .forOfStatement (foldPart f left) (foldPart f right) (foldPart f body) isAwait
  | .whileStatement test body => .whileStatement (foldPart f test) (foldPart f body)
  | .doWhileStatement body test => .doWhileStatement (foldPart f body) (foldPart f test)
  | .throwStatement argument => .throwStatement (foldPart f argument)
  | .catchClause param body => .catchClause (foldPart f param) (foldPart f body)
  | .tryStatement block handler finalizer =>
    .tryStatement (foldPart f block) (foldPart f handler) (foldPart f finalizer)
  | .switchCase test consequent => .switchCase (foldPart f test) (foldList f consequent)
  | .switchStatement discriminant cases =>
    .switchStatement (foldPart f discriminant) (foldList f cases)
  | .breakStatement => .breakStatement
  | .continueStatement => .continueStatement
  | .importSpecifier name imported => .importSpecifier (foldPart f name) (foldPart f imported)
  | .importDefaultSpecifier name => .importDefaultSpecifier (foldPart f name)
  | .importNamespaceSpecifier name => .importNamespaceSpecifier (foldPart f name)
  | .importDeclaration specifiers source =>
    .importDeclaration (foldList f specifiers) (foldPart f source)
  | .exportSpecifier name exported => .exportSpecifier (foldPart f name) (foldPart f exported)
  | .exportNamedDeclaration declaration specifiers source =>
    .exportNamedDeclaration (foldPart f declaration) (foldList f specifiers) (foldPart f source)
  | .exportDefaultDeclaration declaration => .exportDefaultDeclaration (foldPart f declaration)
  | .exportAllDeclaration source exported =>
    .exportAllDeclaration (foldPart f source) (foldPart f exported)
  | .program body => .program (foldList f body)

/-- The value of a part that may be absent. -/
def foldPart {β : Type} (f : Node → Form β → β) : Option Node → Option β
  | none => none
  | some n => some (fold f n)

/-- The values of a list of parts. -/
def foldList {β : Type} (f : Node → Form β → β) : List Node → List β
  | [] => []
  | n :: rest => fold f n :: foldList f rest

/-- The values of a list of parts with holes. -/
def foldSparse {β : Type} (f : Node → Form β → β) : List (Option Node) → List (Option β)
  | [] => []
  | p :: rest => foldPart f p :: foldSparse f rest

end

end Node

end ModuleLowering
