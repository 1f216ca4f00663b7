import ModuleLowering.CommandLine.Run

/-!
# Checking a directory

Lowers every module in a directory in both modes, in the order of their names, and says which ones
fail. Nothing is written.
-/

set_option autoImplicit false

namespace ModuleLowering.CommandLine

/-- Whether the names of two files are in order. -/
def inOrder (a b : Text) : Bool :=
  match a, b with
  | [], _ => true
  | _ :: _, [] => false
  | c :: a, d :: b => c.val < d.val || (c = d && inOrder a b)

def isModuleName (name : Text) : Bool := (Text.ofString ".js").isSuffixOf name

def modeName (runtimeModule : Bool) : Text := if runtimeModule then "registry" else "native"

/-- The reports about two runs, one after the other. -/
def Report.append (r s : Report) : Report :=
  ⟨max r.exitCode s.exitCode, r.stdout ++ s.stdout, r.stderr ++ s.stderr, none⟩

def checkMode (path : Path) (content : Text) (runtimeModule : Bool) : Except Break Report :=
  let config : Config := { moduleId := path.name, runtimeModule }
  let subject : Text := path.text ++ " (" ++ modeName runtimeModule ++ ")"
  match (lowerText content (.ok config) (some path.text)).result.1 with
  | .error c => .error (.crash c)
  | .ok (.ok _) => .ok ⟨0, "[ok] " ++ subject ++ "\n", [], none⟩
  | .ok (.error d) =>
    .ok ⟨1, [], "[" ++ d.phase.getD [] ++ " error] " ++ subject ++ ": " ++ d.span.describe ++ ": " ++
      d.message ++ "\n", none⟩

/-- The report about one module in both modes. -/
def checkText (path : Path) (content : Text) : Except Break Report := do
  return (← checkMode path content false).append (← checkMode path content true)

/-- Why a check breaks off. -/
inductive CheckBreak where
  | file (fault : FileFault)
  | run (b : Break)
deriving DecidableEq

variable {m : Type → Type} [Monad m]

def checkFile (access : FileAccess m) (path : Path) : ExceptT CheckBreak m Report := do
  match ← ExceptT.lift (access.readText path) with
  | .error .notText => throw (.run .notText)
  | .error (.file fault) => throw (.file fault)
  | .ok content => ExceptT.mk (pure ((checkText path content).mapError .run))

/-- The report about the modules in a directory. -/
def check (access : FileAccess m) (directory : Path) : m (Except CheckBreak Report) := do
  let names := ((← access.names directory).filter isModuleName).mergeSort inOrder
  if names.isEmpty then return .ok ⟨1, [], "no playground files found\n", none⟩
  let reports := names.mapM fun name => checkFile access (directory.child name)
  return (← reports.run).map fun reports => reports.foldl Report.append ⟨0, [], [], none⟩

end ModuleLowering.CommandLine
