import ModuleLowering.Config
import ModuleLowering.Diagnostic
import ModuleLowering.Registry.Collection
import ModuleLowering.Registry.CommonJs
import ModuleLowering.Syntax.Print

/-!
# Lowering

A module is lowered in one of two modes. On the registry, everything it imports is taken from there
and its import and export forms go; otherwise they stay, and only what it passes on and what the
host loads itself is bound anew. Either way the registry is told what the module publishes. A module
without export forms is taken for a CommonJS module.
-/

set_option autoImplicit false

namespace ModuleLowering

/-- Why a module cannot be lowered. -/
inductive LowerError where
  | config (e : ConfigError)
  | collect (e : CollectError)
  /-- A specifier that is no text. -/
  | sourceNotText
deriving DecidableEq

namespace Config

/-- What the modules of a program are resolved by. -/
def resolution (c : Config) : Resolution :=
  ⟨c.external.map ExternalPattern.pattern, c.importPaths.getD []⟩

end Config

/-! ## Bindings -/

namespace ImportRecord

/-- The import form for something taken. -/
def importForm (r : ImportRecord) : Node :=
  match r.kind with
  | .default | .defaultAsNamed => Node.defaultImport r.name r.source
  | .named => Node.namedImport r.name r.importedName r.source
  | .whole => Node.wholeImport r.name r.source

/-- What is taken, read from the module that `ident` holds. -/
def value (r : ImportRecord) (ident : Text) : Node :=
  match r.kind with
  | .default | .defaultAsNamed => (Node.identifier ident).memberNamed "default"
  | .named => (Node.identifier ident).memberNamed r.importedName
  | .whole => Registry.asWildcard ident

/-- The statement that binds something taken. Modules are resolved as the need arises. -/
def binding (runtimeModule : Bool) (r : ImportRecord) :
    ExceptT LowerError (StateM Resolver) Node := do
  let resolver ← get
  match r.source with
  | .text specifier =>
    if runtimeModule || resolver.resolution.isExternal specifier then
      let (entry, resolver) := resolver.resolve specifier
      set resolver
      return Node.constant r.name (some (r.value entry.ident))
    else return r.importForm
  | _ =>
    if runtimeModule || resolver.resolution.external.isSome then throw .sourceNotText
    else return r.importForm

end ImportRecord

/-! ## Statements for modules and exports -/

namespace ResolvedModule

/-- The statements that make a module available here. -/
def registration (m : ResolvedModule) : List Node :=
  if m.key.isExternal then Registry.externalModule m.ident m.specifier
  else [Registry.localModule m.ident m.key.path]

end ResolvedModule

namespace ExportRecord

/-- The property that publishes something by name. -/
def property? (r : ExportRecord) : Option Node :=
  match r.kind with
  | .whole => none
  | _ => some (Registry.publishedProperty r.exportName r.name)

/-- The name that holds a module all of which is published. -/
def wildcard? (r : ExportRecord) : Option Text :=
  match r.kind with
  | .whole => some r.name
  | _ => none

/-- The statement that tells the registry what a module publishes. -/
def publication (moduleId : Text) (exports : List ExportRecord) : Node :=
  Registry.publication moduleId (exports.filterMap property?) (exports.filterMap wildcard?)

end ExportRecord

/-! ## Modules -/

/-- A lowered module. -/
structure Lowering where
  program : Node
  imports : List ImportRecord
  exports : List ExportRecord
  modules : List ResolvedModule
  /-- What was rewritten in a CommonJS module. -/
  rewritten : Option Rewritten := none

namespace Lowering

/-- What is noted in the end. -/
def summary (moduleId : Text) (l : Lowering) : Event :=
  let imports := Text.ofNat l.imports.length
  match l.rewritten with
  | none =>
    ⟨.info, .lowering,
      "lowered " ++ moduleId ++ " as ES module: " ++ imports ++ " import(s), " ++
        Text.ofNat l.exports.length ++ " export(s), " ++ Text.ofNat l.modules.length ++
        " registered module(s)"⟩
  | some r =>
    ⟨.info, .lowering,
      "lowered " ++ moduleId ++ " as CommonJS module: " ++ imports ++ " import(s), " ++
        Text.ofNat r.rewriting.exported ++ " export assignment(s)"⟩

/-- Puts a module together from what was collected, the bindings and the resolved modules. -/
def assemble (config : Config) (program : Node) (c : Collection) (bindings : List Node)
    (resolver : Resolver) : Lowering :=
  let registrations := resolver.modules.flatMap ResolvedModule.registration
  let body := registrations ++ bindings ++ c.body
  if c.exports.isEmpty then
    let module := program.withForm (.program body)
    let rewritten :=
      Rewritten.ofProgram config.moduleId config.runtimeModule resolver.resolution resolver.names
        module
    ⟨(rewritten.outcome.item? module).getD module, c.imports, c.exports, resolver.modules,
      some rewritten⟩
  else
    let publication := ExportRecord.publication config.moduleId c.exports
    ⟨program.withForm (.program (body ++ [publication])), c.imports, c.exports, resolver.modules,
      none⟩

def ofProgram (config : Config) (program : Node) : Logged LowerError Lowering := do
  let (outcome, collection) :=
    Collection.ofProgram config.runtimeModule (.ofProgram program) program
  Logged.notes (collection.findings.map Finding.event)
  Logged.ofExcept (outcome.mapError .collect)
  let (bindings, resolver) :=
    (ExceptT.run (collection.imports.mapM (ImportRecord.binding config.runtimeModule))).run
      { resolution := config.resolution, names := collection.names }
  Logged.notes (resolver.modules.map ResolvedModule.event)
  let lowering := assemble config program collection (← Logged.ofExcept bindings) resolver
  Logged.notes ((lowering.rewritten.map (·.events config.moduleId)).getD [])
  Logged.notes [lowering.summary config.moduleId]
  return lowering

end Lowering

/-! ## Texts -/

/-- Why a text cannot be lowered although nothing can be said about it. -/
inductive Crash where
  | parse (e : ParseError)
  | lower (e : LowerError)
  | print (e : PrintError)
deriving DecidableEq

namespace Diagnostic

def ofConfigError? (e : ConfigError) (file : Option Text) : Option Diagnostic :=
  e.message?.map fun message =>
    ⟨message, some "GM0001", some "config", "error", .ofPlace none file, []⟩

/-- The diagnostic of a form that cannot be lowered. -/
def ofUnsupported (form : UnsupportedForm) (place : Option Position) (file : Option Text) :
    Diagnostic :=
  ⟨form.message, some "GM0002", some "transform", "error", .ofPlace place file, []⟩

/-- What can be said about a module that cannot be lowered. -/
def ofLowerError? (e : LowerError) (file : Option Text) : Option Diagnostic :=
  match e with
  | .config e => ofConfigError? e file
  | .collect (.unsupported form place) => some (ofUnsupported form place file)
  | .collect .missingPart | .sourceNotText => none

end Diagnostic

def Node.ofFile (source : Text) (file : Option Text) : Except ParseError (Except Diagnostic Node) :=
  match Node.ofSource source with
  | .ok n => .ok (.ok n)
  | .error e =>
    match e.complaint? with
    | some c => .ok (.error (.ofComplaint c file))
    | none => .error e

/-- The lowered text of a text, or a diagnostic. A configuration that is none is found out only when
the text has been read. -/
def lowerText (source : Text) (config : Except ConfigError Config) (file : Option Text) :
    Logged Crash (Except Diagnostic Text) := do
  match ← Logged.ofExcept ((Node.ofFile source file).mapError .parse) with
  | .error d => return .error d
  | .ok program =>
    let work : Logged LowerError Lowering := do
      let config ← Logged.ofExcept (config.mapError .config)
      Lowering.ofProgram config program
    match ← Logged.attempt work with
    | .error e =>
      match Diagnostic.ofLowerError? e file with
      | some d => return .error d
      | none => throw (.lower e)
    | .ok lowering =>
      return .ok (← Logged.ofExcept (lowering.program.moduleText.mapError .print))

end ModuleLowering
