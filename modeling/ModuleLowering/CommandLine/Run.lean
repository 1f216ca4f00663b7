import ModuleLowering.CommandLine.Argument
import ModuleLowering.Files.Tree
import ModuleLowering.Registry.Lowering

/-!
# The command line

Lowers one file. The options come from a configuration file and from flags, which count more. What
a run says, writes and ends with is a value; only reading files is an effect, so that a run can be
looked at in any surroundings. Either the lowered text is delivered, or something is said about why
not and nothing is written.
-/

set_option autoImplicit false

namespace ModuleLowering

/-- The diagnostic of a file that cannot be read. -/
def Diagnostic.ofFileFault (path : Text) (fault : FileFault) : Diagnostic where
  message := "cannot read " ++ path ++ ": " ++ fault.reason
  code := some "GM0003"
  phase := some "driver"
  span := { file := some path }

namespace CommandLine

/-- Why a run breaks off although nothing can be said about it. -/
inductive Break where
  | config (e : ConfigError)
  | crash (c : Crash)
  /-- A file does not hold text. -/
  | notText
deriving DecidableEq

/-- What a run that is carried out comes to. -/
structure Report where
  exitCode : Nat
  stdout : Text
  stderr : Text
  /-- The file to write. -/
  written : Option (Path × Text) := none

/-- What a run comes to. -/
inductive Outcome where
  /-- The arguments are not carried out. -/
  | usage (stop : UsageStop)
  | broken (b : Break)
  | done (report : Report)

/-! ## Options -/

/-- The specifier and the path that a flag gives. -/
def importPathOfFlag (item : Text) : Except ConfigError (Text × Text) :=
  match Argument.cutAtEquals item with
  | (specifier, some path) =>
    if specifier.isEmpty || path.isEmpty then .error (.flagNotPath item)
    else .ok (specifier, path)
  | (_, none) => .error (.flagNotPath item)

/-- The table of paths with those that flags give; the last one for a specifier counts. -/
def setPaths (table : List (Text × Json)) (paths : List (Text × Text)) : List (Text × Json) :=
  paths.foldl (fun table path => Json.setMember path.1 (.text path.2) table) table

/-- The table of paths that counts more than that of the options: none if no flag gives a path. -/
def mergedPaths (options : List (Text × Json)) (paths : List (Text × Text)) : Json :=
  if paths.isEmpty then .null
  else
    match Json.lookUp? "importPaths" options with
    | some (.object table) => .object (setPaths table paths)
    | _ => .object (setPaths [] paths)

/-- The values that count more than the options. The path of the source is the identity of a module
to which nothing else gives one. -/
def overrides (source : Path) (s : Settings) (options : List (Text × Json))
    (paths : List (Text × Text)) : List (Text × Json) :=
  let id : Option Text :=
    match s.moduleId with
    | some id => some id
    | none => if (Json.lookUp? "moduleId" options).isSome then none else some source.text
  [("module_id", .ofText? id), ("runtime_module", if s.runtimeModule then .boolean true else .null),
    ("external_pattern", .ofText? s.externalPattern), ("import_paths", mergedPaths options paths)]

def configure (source : Path) (s : Settings) (options : List (Text × Json)) :
    Logged ConfigError Config := do
  let paths ← Logged.ofExcept (s.importPaths.mapM importPathOfFlag)
  Config.ofOptions (.object options) (overrides source s options paths)

variable {m : Type → Type} [Monad m]

def readOptions (access : FileAccess m) (path : Path) :
    m (Except Break (Except ConfigError (List (Text × Json)))) := do
  match ← access.readText path with
  | .error .notText => return .error .notText
  | .error (.file fault) => return .ok (.error (.fileUnreadable path.text fault.reason))
  | .ok content => return .ok (Config.optionsOfText path.text content)

/-- The options that settings name a file for; none without one. -/
def optionsOf (access : FileAccess m) (s : Settings) :
    m (Except Break (Except ConfigError (List (Text × Json)))) :=
  match s.config with
  | none => return .ok (.ok [])
  | some path => readOptions access (.ofText path)

/-! ## What is said -/

/-- The least level at which notes are shown. -/
def shownFrom (verbosity : Nat) : Level :=
  match verbosity with
  | 0 => .warning
  | 1 => .info
  | _ => .debug

/-- A note as a line; without a level and a channel unless the user asked for more. -/
def eventLine (verbosity : Nat) (e : Event) : Text :=
  (if verbosity = 0 then e.message else e.line) ++ "\n"

/-- The notes that are shown. -/
def eventText (verbosity : Nat) (events : List Event) : Text :=
  let shown := events.filter fun e => (shownFrom verbosity).rank ≤ e.level.rank
  shown.flatMap (eventLine verbosity)

def diagnosticLine (source : Path) (d : Diagnostic) : Text :=
  let number (n : Option Nat) : Text := (n.map Text.ofNat).getD "?"
  Diagnostic.firstGiven d.span.file source.text ++ ":" ++ number d.span.line ++ ":" ++
    number d.span.column ++ ": " ++ d.severity ++ ": " ++ d.message ++ "\n"

/-- What is printed for a machine. -/
def payload (exitCode : Nat) (diagnostics : List Json) (code : Option Text) : Text :=
  let members : List (Text × Json) :=
    [("exit_code", .ofNat exitCode), ("diagnostics", .array diagnostics)]
  let code := (code.map fun code => [(("code" : Text), Json.text code)]).getD []
  (Json.object (members ++ code)).render ++ "\n"

/-- The report about a module that was rejected. -/
def rejected (source : Path) (s : Settings) (events : List Event) (d : Diagnostic) : Report :=
  let notes := eventText s.verbosity events
  if s.json then ⟨1, payload 1 [d.toJson "driver" source.text] none, notes, none⟩
  else ⟨1, [], notes ++ diagnosticLine source d, none⟩

/-- The report about a module that was lowered. -/
def delivered (s : Settings) (events : List Event) (code : Text) : Report :=
  match s.output with
  | some path =>
    let path := Path.ofText path
    let wrote : Event := ⟨.info, .commandLine, "wrote " ++ path.text⟩
    ⟨0, if s.json then payload 0 [] none else [], eventText s.verbosity (events ++ [wrote]),
      some (path, code)⟩
  | none =>
    ⟨0, if s.json then payload 0 [] (some code) else code, eventText s.verbosity events, none⟩

/-! ## Runs -/

def lowerFile (access : FileAccess m) (path : Path) (config : Config) :
    m (Except Break (Except Diagnostic Text) × List Event) := do
  match ← access.readText path with
  | .error .notText => return (.error .notText, [])
  | .error (.file fault) => return (.ok (.error (.ofFileFault path.text fault)), [])
  | .ok content =>
    let (result, events) := (lowerText content (.ok config) (some path.text)).result
    return (result.mapError .crash, events)

/-- The report about a configuration that was rejected. -/
def configRejected (source : Path) (s : Settings) (events : List Event) (e : ConfigError) :
    Outcome :=
  match Diagnostic.ofConfigError? e none with
  | some d => .done (rejected source s events d)
  | none => .broken (.config e)

def runSettings (access : FileAccess m) (source : Path) (s : Settings) : m Outcome := do
  match ← optionsOf access s with
  | .error b => return .broken b
  | .ok (.error e) => return configRejected source s [] e
  | .ok (.ok options) =>
    match (configure source s options).result with
    | (.error e, events) => return configRejected source s events e
    | (.ok config, events) =>
      let (result, more) ← lowerFile access source config
      match result with
      | .error b => return .broken b
      | .ok (.error d) => return .done (rejected source s (events ++ more) d)
      | .ok (.ok code) => return .done (delivered s (events ++ more) code)

def run (access : FileAccess m) (arguments : List Text) : m Outcome :=
  match Settings.ofArguments arguments with
  | .error stop => return .usage stop
  | .ok (source, s) => runSettings access (.ofText source) s

end CommandLine

end ModuleLowering
