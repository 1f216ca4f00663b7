import ModuleLowering.Registry.Call
import ModuleLowering.Registry.Finding
import ModuleLowering.Registry.Names

/-!
# Collection

The statements of a module are gone through in order. What their import and export forms say is
collected as findings, and the statements that stay are collected as the new body. On the registry
every such form goes, except for what it declares; otherwise the forms stay, and only a default
without a name gets one.
-/

set_option autoImplicit false

namespace ModuleLowering

/-- Where a name stands in a form. -/
inductive NameRole where
  | imported
  | exported
  | reexported
  | reexportedWhole
deriving DecidableEq

namespace NameRole

def words : NameRole → Text
  | imported => "import"
  | exported => "export"
  | reexported => "re-export"
  | reexportedWhole => "namespace re-export"

end NameRole

/-- A form of import or export that cannot be lowered. -/
inductive UnsupportedForm where
  /-- A name that is no identifier. -/
  | nameNotIdentifier (role : NameRole)
  | defaultWithoutSource
  | destructuredVariable
  /-- A statement that declares no name. -/
  | notExportable (typeName : String)
deriving DecidableEq

namespace UnsupportedForm

def message : UnsupportedForm → Text
  | nameNotIdentifier role => "string literal " ++ role.words ++ " names are not supported"
  | defaultWithoutSource => "\x60export \x7b default \x7d\x60 needs a source module"
  | destructuredVariable => "destructuring in exported variable declarations is not supported"
  | notExportable typeName => "cannot export " ++ (typeName : Text)

end UnsupportedForm

/-- Why the forms of a module cannot be collected. -/
inductive CollectError where
  | unsupported (form : UnsupportedForm) (place : Option Position)
  /-- A part that has to be there is absent or of a kind that has no such place. -/
  | missingPart
deriving DecidableEq

/-- What has been collected. -/
structure Collection where
  names : Names
  findings : List Finding := []
  body : List Node := []

namespace Collection

/-- What a module takes from others. -/
def imports (c : Collection) : List ImportRecord := c.findings.filterMap Finding.importRecord?

/-- What a module publishes. -/
def exports (c : Collection) : List ExportRecord := c.findings.filterMap Finding.exportRecord?

end Collection

/-- A step of collecting. What has been collected is kept when it fails. -/
abbrev Collecting (α : Type) := ExceptT CollectError (StateM Collection) α

namespace Collecting

def add (f : Finding) : Collecting Unit :=
  modify fun c => { c with findings := c.findings ++ [f] }

/-- Adds statements to the body. -/
def keep (statements : List Node) : Collecting Unit :=
  modify fun c => { c with body := c.body ++ statements }

def freshName (base : Text) : Collecting Text := do
  let c ← get
  let (name, names) := c.names.fresh base
  set { c with names }
  return name

/-! ## Parts of forms -/

/-- The part of a specifier that names something in this module. -/
def namePart? (n : Node) : Option Node :=
  match n.form with
  | .importSpecifier name _ | .importDefaultSpecifier name | .importNamespaceSpecifier name
  | .exportSpecifier name _ => name
  | _ => none

/-- The part of a specifier that names something in another module. -/
def importedPart? (n : Node) : Option Node :=
  match n.form with
  | .importSpecifier _ imported => imported
  | _ => none

/-- The part of a specifier that names what is published. -/
def exportedPart? (n : Node) : Option Node :=
  match n.form with
  | .exportSpecifier _ exported => exported
  | _ => none

/-- The part of a declaration that holds its name, if such declarations have one. -/
def idPart? (n : Node) : Option (Option Node) :=
  match n.form with
  | .variableDeclarator id _ | .functionDeclaration id .. | .classDeclaration id ..
  | .functionExpression id .. | .classExpression id .. => some id
  | _ => none

/-- The name of an identifier that has to be there. -/
def identifierName (part : Option Node) : Collecting Text :=
  match part.bind Node.name? with
  | some name => return name
  | none => throw .missingPart

/-- The name that a part of a form gives; only an identifier is supported. -/
def formName (role : NameRole) (part : Option Node) : Collecting Text :=
  match part with
  | none => throw .missingPart
  | some n =>
    match n.name? with
    | some name => return name
    | none => throw (.unsupported (.nameNotIdentifier role) n.loc)

/-- The specifier that a form gives. -/
def sourceValue (source : Option Node) : Collecting Value :=
  match source.map Node.form with
  | some (.literal value _) => return value
  | _ => throw .missingPart

/-! ## Imports -/

def importSpecifier (source : Value) (specifier : Node) : Collecting Unit := do
  match specifier.form with
  | .importDefaultSpecifier name => add (.importedDefault (← identifierName name) source)
  | .importNamespaceSpecifier name => add (.importedWhole (← identifierName name) source)
  | _ =>
    let imported ← formName .imported (importedPart? specifier)
    let name ← identifierName (namePart? specifier)
    add (.importedName imported name source)

def importForm (runtimeModule : Bool) (statement : Node) (specifiers : List Node)
    (source : Option Node) : Collecting (List Node) := do
  if runtimeModule then
    let source ← sourceValue source
    specifiers.forM (importSpecifier source)
    return []
  else return [statement]

/-! ## The default -/

/-- A function or class declaration with another name. -/
def withId (declaration : Node) (id : Option Node) : Node :=
  match declaration.form with
  | .functionDeclaration _ params body isAsync generator =>
    declaration.withForm (.functionDeclaration id params body isAsync generator)
  | .classDeclaration _ superclass body =>
    declaration.withForm (.classDeclaration id superclass body)
  | _ => declaration

/-- A function or class that is the default, with its name or with a new one. -/
def defaultDeclaration (declaration : Node) (id : Option Node) (base : Text) :
    Collecting Node := do
  match id with
  | none =>
    let name ← freshName base
    add (.defaultGivenName declaration.typeName name)
    return withId declaration (some (.identifier name))
  | some _ =>
    add (.defaultDeclared declaration.typeName (← identifierName id))
    return declaration

def defaultForm (runtimeModule : Bool) (statement : Node) (declaration : Option Node) :
    Collecting (List Node) := do
  let published (n : Node) : Node := statement.withForm (.exportDefaultDeclaration (some n))
  let declared (n : Node) : List Node := if runtimeModule then [n] else [published n]
  match declaration, declaration.map Node.form with
  | some d, some (.functionDeclaration id ..) => return declared (← defaultDeclaration d id "__fn")
  | some d, some (.classDeclaration id ..) => return declared (← defaultDeclaration d id "__Class")
  | _, _ =>
    let name ← freshName "__export_default"
    add (.defaultBound name)
    let binding := Node.mk statement.loc (Node.constant name declaration).form
    return if runtimeModule then [binding] else [binding, published (.identifier name)]

/-! ## Names -/

/-- One specifier of an export of names of this module. -/
def exportSpecifier (specifier : Node) : Collecting Unit := do
  let name ← formName .exported (namePart? specifier)
  let exported ← formName .exported (exportedPart? specifier)
  if name = "default" then throw (.unsupported .defaultWithoutSource specifier.loc)
  add (.exportedName name exported)

/-- One specifier of an export of names of another module. -/
def reexportSpecifier (source : Value) (specifier : Node) : Collecting Unit := do
  let original ← formName .reexported (namePart? specifier)
  let exported ← formName .reexported (exportedPart? specifier)
  let name ← freshName "__re_export"
  add (.reexportedName original exported source name)

/-- One variable that is declared and published. -/
def exportedVariable (statement : Node) (kind : Text) (declarator : Node) : Collecting Unit := do
  match idPart? declarator with
  | none => throw .missingPart
  | some id =>
    match id.bind Node.name? with
    | some name => add (.exportedVariable kind name)
    | none =>
      throw (.unsupported .destructuredVariable (declarator.loc.orElse fun _ => statement.loc))

def exportedDeclaration (statement declaration : Node) : Collecting Unit := do
  match declaration.form with
  | .variableDeclaration kind declarations =>
    declarations.forM (exportedVariable statement kind)
  | .functionDeclaration (some id) .. | .classDeclaration (some id) .. =>
    add (.exportedDeclaration declaration.typeName (← identifierName (some id)))
  | _ => throw (.unsupported (.notExportable declaration.typeName) statement.loc)

def namedForm (runtimeModule : Bool) (statement : Node) (declaration : Option Node)
    (specifiers : List Node) (source : Option Node) : Collecting (List Node) := do
  match declaration, source with
  | some d, _ =>
    exportedDeclaration statement d
    return if runtimeModule then [d] else [statement]
  | none, some _ =>
    let source ← sourceValue source
    specifiers.forM (reexportSpecifier source)
    return if runtimeModule then [] else [statement]
  | none, none =>
    specifiers.forM exportSpecifier
    return if runtimeModule then [] else [statement]

def wholeForm (runtimeModule : Bool) (statement : Node) (source exported : Option Node) :
    Collecting (List Node) := do
  let source ← sourceValue source
  match exported with
  | some _ =>
    let exported ← formName .reexportedWhole exported
    let name ← freshName "__re_export"
    add (.reexportedWhole exported source name)
  | none =>
    let name ← freshName "__re_export_all"
    add (.reexportedAll source name)
  return if runtimeModule then [] else [statement]

/-! ## Modules -/

/-- Whether a statement says nothing: an empty one, or an import of nothing from nowhere. -/
def isIdle (statement : Node) : Bool :=
  match statement.form with
  | .emptyStatement => true
  | .importDeclaration [] (some source) =>
    match source.form with
    | .literal value _ => value.isEmpty
    | _ => false
  | _ => false

def remains (runtimeModule : Bool) (statement : Node) : Collecting (List Node) :=
  match statement.form with
  | .importDeclaration specifiers source => importForm runtimeModule statement specifiers source
  | .exportDefaultDeclaration declaration => defaultForm runtimeModule statement declaration
  | .exportNamedDeclaration declaration specifiers source =>
    namedForm runtimeModule statement declaration specifiers source
  | .exportAllDeclaration source exported => wholeForm runtimeModule statement source exported
  | _ => return [statement]

def statement (runtimeModule : Bool) (s : Node) : Collecting Unit := do
  if isIdle s then return
  keep (← remains runtimeModule s)

end Collecting

/-- Collects a module with some names taken. The second part is what was collected until the end or
the first error. -/
def Collection.ofProgram (runtimeModule : Bool) (names : Names) (program : Node) :
    Except CollectError Unit × Collection :=
  let steps : Collecting Unit :=
    match program.form with
    | .program body => body.forM (Collecting.statement runtimeModule)
    | _ => throw .missingPart
  (ExceptT.run steps).run { names }

end ModuleLowering
