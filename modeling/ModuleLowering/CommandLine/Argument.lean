import ModuleLowering.Text.Class
import ModuleLowering.Text.Encoding

/-!
# Arguments

How the arguments of the command line are read. A flag has a long name, which may be cut short as
long as no other one begins alike, and possibly a letter. Letters can be run together, and a value
stands behind its flag in the same argument or in the next one. Two dashes alone end the flags.
-/

set_option autoImplicit false

namespace ModuleLowering.CommandLine

/-! ## Flags -/

/-- A flag of the command line. -/
inductive Flag where
  | help
  | output
  | moduleId
  | runtimeModule
  | externalPattern
  | importPath
  | config
  | json
  | verbose
deriving DecidableEq

namespace Flag

def all : List Flag :=
  [help, output, moduleId, runtimeModule, externalPattern, importPath, config, json, verbose]

def longName : Flag → Text
  | help => "--help"
  | output => "--output"
  | moduleId => "--module-id"
  | runtimeModule => "--runtime-module"
  | externalPattern => "--external-pattern"
  | importPath => "--import-path"
  | config => "--config"
  | json => "--json"
  | verbose => "--verbose"

def letter? : Flag → Option CodePoint
  | help => some 'h'
  | output => some 'o'
  | verbose => some 'v'
  | _ => none

def takesValue : Flag → Bool
  | output | moduleId | externalPattern | importPath | config => true
  | help | runtimeModule | json | verbose => false

def ofLetter? (c : CodePoint) : Option Flag := all.find? (·.letter? = some c)

def ofLongName? (name : Text) : Option Flag := all.find? (·.longName = name)

/-- The flags whose long names begin with a text. -/
def beginningWith (start : Text) : List Flag := all.filter fun f => f.longName.startsWith start

end Flag

/-- Why the command line is not carried out. -/
inductive UsageStop where
  /-- The user asked for help. -/
  | help
  /-- The arguments make no sense. -/
  | misuse
deriving DecidableEq

/-! ## Arguments by their looks -/

/-- An argument. -/
inductive Argument where
  /-- No flag. -/
  | plain (t : Text)
  /-- Two dashes. -/
  | separator
  /-- A long name, with the value behind an equals sign. -/
  | long (f : Flag) (value : Option Text)
  /-- A letter, with what stands behind it. -/
  | short (f : Flag) (tail : Text)
  /-- It looks like a flag, but there is none. -/
  | unknown
deriving DecidableEq

namespace Argument

/-- A text up to the first equals sign, and what stands behind it if there is one. -/
def cutAtEquals : Text → Text × Option Text
  | [] => ([], none)
  | c :: rest =>
    if c = '=' then ([], some rest)
    else
      let (name, value) := cutAtEquals rest
      (c :: name, value)

/-- Whether digits, or digits with a point among them that do not end with it, follow. A line feed
at the end does not count. -/
def isNumber (t : Text) : Bool :=
  let t := if t.getLast? = some ('\n' : CodePoint) then t.dropLast else t
  match t.dropWhile CodePoint.isDecimal with
  | [] => !t.isEmpty
  | c :: rest => c = '.' && !rest.isEmpty && rest.all CodePoint.isDecimal

/-- An argument that begins with a dash and is no known flag: a negative number and a text with a
space in it are none. -/
def unflagged (t : Text) : Argument :=
  if isNumber t.tail || t.contains ' ' then plain t else unknown

/-- An argument that begins with two dashes. -/
def ofLong (t : Text) : Except UsageStop Argument :=
  let (name, value) := cutAtEquals t
  match Flag.ofLongName? name with
  | some f => .ok (long f value)
  | none =>
    match Flag.beginningWith name with
    | [] => .ok (unflagged t)
    | [f] => .ok (long f value)
    | _ => .error .misuse

/-- An argument other than two dashes. -/
def ofText (t : Text) : Except UsageStop Argument :=
  match t with
  | dash :: c :: tail =>
    if dash ≠ '-' then .ok (plain t)
    else if c = '-' then ofLong t
    else
      match Flag.ofLetter? c with
      | some f => .ok (short f tail)
      | none => .ok (unflagged t)
  | _ => .ok (plain t)

/-- The arguments of a command line; behind two dashes there are no flags. -/
def ofTexts : List Text → Except UsageStop (List Argument)
  | [] => .ok []
  | t :: rest =>
    if t = "--" then .ok (separator :: rest.map plain)
    else do
      let argument ← ofText t
      return argument :: (← ofTexts rest)

end Argument

/-! ## Letters run together -/

/-- What one argument of letters gives. -/
structure Letters where
  /-- The flags with their values. -/
  flags : List (Flag × Text) := []
  /-- A flag at the end whose value is still to come. -/
  last : Option Flag := none
  /-- Whether something is left that is no flag. -/
  stray : Bool := false

namespace Letters

/-- The flag `f` and what stands behind its letter. -/
def read (f : Flag) : Text → Except UsageStop Letters
  | [] => .ok (if f.takesValue then { last := some f } else { flags := [(f, [])] })
  | c :: rest =>
    if f.takesValue then .ok { flags := [(f, if c = '=' then rest else c :: rest)] }
    else if c = '=' || c = '-' then .error .misuse
    else
      match Flag.ofLetter? c with
      | none => .ok { flags := [(f, [])], stray := true }
      | some g => do
        let more ← read g rest
        return { more with flags := (f, []) :: more.flags }

end Letters

/-! ## Settings -/

/-- What a command line asks for. -/
structure Settings where
  source : Option Text := none
  output : Option Text := none
  moduleId : Option Text := none
  runtimeModule : Bool := false
  externalPattern : Option Text := none
  importPaths : List Text := []
  config : Option Text := none
  json : Bool := false
  verbosity : Nat := 0
  /-- Whether something was given that has no meaning. -/
  stray : Bool := false

namespace Settings

def apply (s : Settings) (flag : Flag × Text) : Except UsageStop Settings :=
  let (f, value) := flag
  match f with
  | .help => .error .help
  | .output => .ok { s with output := some value }
  | .moduleId => .ok { s with moduleId := some value }
  | .runtimeModule => .ok { s with runtimeModule := true }
  | .externalPattern => .ok { s with externalPattern := some value }
  | .importPath => .ok { s with importPaths := s.importPaths ++ [value] }
  | .config => .ok { s with config := some value }
  | .json => .ok { s with json := true }
  | .verbose => .ok { s with verbosity := s.verbosity + 1 }

/-- The settings with a text that is no flag: the source, if there is none yet. -/
def place (s : Settings) (t : Text) : Settings :=
  if s.source.isNone then { s with source := some t } else { s with stray := true }

/-- Applies the arguments from left to right. Two dashes count for nothing before the source and
directly behind it. -/
def read : List Argument → Settings → Except UsageStop Settings
  | [], s => .ok s
  | .plain t :: .separator :: rest, s => read rest (s.place t)
  | .plain t :: rest, s => read rest (s.place t)
  | .separator :: rest, s => read rest { s with stray := s.stray || s.source.isSome }
  | .unknown :: rest, s => read rest { s with stray := true }
  | .long f (some value) :: rest, s => do
    if f.takesValue then read rest (← s.apply (f, value)) else throw .misuse
  | .long f none :: rest, s =>
    if f.takesValue then
      match rest with
      | .plain value :: rest => do read rest (← s.apply (f, value))
      | _ => .error .misuse
    else do read rest (← s.apply (f, []))
  | .short f tail :: rest, s => do
    let letters ← Letters.read f tail
    match letters.last, rest with
    | none, rest =>
      let s ← letters.flags.foldlM apply s
      read rest { s with stray := s.stray || letters.stray }
    | some f, .plain value :: rest => read rest (← (letters.flags ++ [(f, value)]).foldlM apply s)
    | some _, _ => throw .misuse

/-- The settings that arguments ask for, and the source. -/
def ofArguments (arguments : List Text) : Except UsageStop (Text × Settings) := do
  let settings ← read (← Argument.ofTexts arguments) {}
  match settings.source, settings.stray with
  | some source, false => return (source, settings)
  | _, _ => throw .misuse

end Settings

end ModuleLowering.CommandLine
