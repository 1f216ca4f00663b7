import ModuleLowering.Json.Reader
import ModuleLowering.Log
import ModuleLowering.Pattern.Match

/-!
# Configuration

How a module is to be lowered. A configuration is made of a bag of options, over which the values of
single fields may be given. It is checked as a whole, field by field, before any module is read.
-/

set_option autoImplicit false

namespace ModuleLowering

/-- A pattern with its text. -/
structure ExternalPattern where
  source : Text
  pattern : Pattern

/-- How a module is to be lowered. -/
structure Config where
  moduleId : Text
  /-- Whether imports and exports are replaced by calls of the registry. -/
  runtimeModule : Bool := false
  /-- Which modules the host loads itself. -/
  external : Option ExternalPattern := none
  /-- Where specifiers are found. -/
  importPaths : Option (List (Text × Text)) := none

/-- Why a configuration is rejected. -/
inductive ConfigError where
  | optionsNotObject
  | moduleIdMissing
  | moduleIdInvalid
  | runtimeModuleInvalid
  | importPathsInvalid
  | importPathInvalid (specifier : Text)
  | externalPatternInvalid
  | externalPatternMalformed (source : Text) (why : Pattern.Rejection)
  | unknownField (name : Text)
  /-- Something else was given in place of a configuration. -/
  | notConfig (kind : Text)
  | fileUnreadable (path reason : Text)
  | fileNotJson (path content : Text) (why : Json.Stop)
  | fileNotObject (path : Text)
  /-- A flag that should give a specifier and its path. -/
  | flagNotPath (item : Text)
deriving DecidableEq

namespace ConfigError

/-- The message of an error. Some patterns and files have none. -/
def message? : ConfigError → Option Text
  | optionsNotObject => some "options must be an object"
  | moduleIdMissing => some "moduleId is required"
  | moduleIdInvalid => some "moduleId must be a non-empty string"
  | runtimeModuleInvalid => some "runtimeModule must be a boolean"
  | importPathsInvalid => some "importPaths must be a mapping of specifier to path"
  | importPathInvalid specifier =>
    some ("importPaths entry " ++ specifier.shown ++ ": specifier and path must be strings")
  | externalPatternInvalid => some "externalPattern must be a string"
  | externalPatternMalformed source why =>
    (why.message? source).map fun m => "invalid externalPattern " ++ source.shown ++ ": " ++ m
  | unknownField name => some ("unknown config field " ++ name.shown)
  | notConfig kind => some ("expected GlobalModuleConfig, got " ++ kind)
  | fileUnreadable path reason => some ("cannot read config " ++ path ++ ": " ++ reason)
  | fileNotJson path content why =>
    if why.fault = .longInteger then none
    else some ("config " ++ path ++ " is not valid JSON: " ++ why.message content)
  | fileNotObject path => some ("config " ++ path ++ " must be a JSON object")
  | flagNotPath item => some ("--import-path expects SPEC=PATH, got " ++ item.shown)

end ConfigError

namespace Config

/-- A field of a configuration. -/
inductive Field where
  | moduleId
  | runtimeModule
  | externalPattern
  | importPaths
deriving DecidableEq

namespace Field

def ofOption? (name : Text) : Option Field :=
  if name = "moduleId" then some moduleId
  else if name = "runtimeModule" then some runtimeModule
  else if name = "externalPattern" then some externalPattern
  else if name = "importPaths" then some importPaths
  else none

/-- The field of a value that is given over the options, by its name. -/
def ofOverride? (name : Text) : Option Field :=
  if name = "module_id" then some moduleId
  else if name = "runtime_module" then some runtimeModule
  else if name = "external_pattern" then some externalPattern
  else if name = "import_paths" then some importPaths
  else none

end Field

/-- The values of the fields that are given. -/
structure Values where
  moduleId : Option Json := none
  runtimeModule : Option Json := none
  externalPattern : Option Json := none
  importPaths : Option Json := none

namespace Values

def set (v : Values) (f : Field) (value : Json) : Values :=
  match f with
  | .moduleId => { v with moduleId := some value }
  | .runtimeModule => { v with runtimeModule := some value }
  | .externalPattern => { v with externalPattern := some value }
  | .importPaths => { v with importPaths := some value }

end Values

def isNull : Json → Bool
  | .null => true
  | _ => false

/-- The identity that a value gives. -/
def moduleIdOf (value : Json) : Except ConfigError Text :=
  match value with
  | .text t => if t.isEmpty then .error .moduleIdInvalid else .ok t
  | _ => .error .moduleIdInvalid

/-- The mode that a value gives. -/
def runtimeModuleOf (value : Json) : Except ConfigError Bool :=
  match value with
  | .boolean b => .ok b
  | _ => .error .runtimeModuleInvalid

def importPathOf (entry : Text × Json) : Except ConfigError (Text × Text) :=
  match entry.2 with
  | .text path => .ok (entry.1, path)
  | _ => .error (.importPathInvalid entry.1)

/-- The table of paths that a value gives. -/
def importPathsOf (value : Json) : Except ConfigError (Option (List (Text × Text))) :=
  match value with
  | .null => .ok none
  | .object members => (members.mapM importPathOf).map some
  | _ => .error .importPathsInvalid

def externalOf (value : Json) : Except ConfigError (Option ExternalPattern) :=
  match value with
  | .null => .ok none
  | .text source =>
    match Pattern.ofText source with
    | .ok pattern => .ok (some ⟨source, pattern⟩)
    | .error why => .error (.externalPatternMalformed source why)
  | _ => .error .externalPatternInvalid

/-- The configuration of some values, which are checked in this order. -/
def ofValues (v : Values) : Except ConfigError Config := do
  let id ←
    match v.moduleId with
    | none => .error .moduleIdMissing
    | some value => moduleIdOf value
  let runtimeModule ← (v.runtimeModule.map runtimeModuleOf).getD (.ok false)
  let importPaths ← importPathsOf (v.importPaths.getD .null)
  let external ← externalOf (v.externalPattern.getD .null)
  return ⟨id, runtimeModule, external, importPaths⟩

/-- The values with an option added; an unknown one is noted and left out. -/
def addOption (v : Values) (option : Text × Json) : Logged ConfigError Values := do
  match Field.ofOption? option.1 with
  | some f => return v.set f option.2
  | none =>
    Logged.note .warning .config ("ignoring unknown option " ++ option.1.shown)
    return v

/-- The values with a field set, unless its value is null. -/
def addOverride (v : Values) (override : Text × Json) : Logged ConfigError Values := do
  match Field.ofOverride? override.1 with
  | some f => return if isNull override.2 then v else v.set f override.2
  | none => throw (.unknownField override.1)

/-- The configuration of a bag of options and of single fields, which count more. -/
def ofOptions (options : Json) (overrides : List (Text × Json)) : Logged ConfigError Config := do
  match options with
  | .object members =>
    let values ← members.foldlM addOption {}
    let values ← overrides.foldlM addOverride values
    Logged.ofExcept (ofValues values)
  | _ => throw .optionsNotObject

/-- The bag of options that the text of a file spells. -/
def optionsOfText (path content : Text) : Except ConfigError (List (Text × Json)) :=
  match Json.ofText content with
  | .error why => .error (.fileNotJson path content why)
  | .ok (.object members) => .ok members
  | .ok _ => .error (.fileNotObject path)

end Config

namespace Json

/-- The name of the kind of a value in messages. -/
def kindName : Json → Text
  | null => "NoneType"
  | boolean _ => "bool"
  | number (.integer _) => "int"
  | number (.float _) => "float"
  | text _ => "str"
  | array _ => "list"
  | object _ => "dict"

end Json

end ModuleLowering
