import ModuleLowering.CommandLine.Run

/-!
# The program

Carries out the command line on the files of the system.
-/

set_option autoImplicit false

open ModuleLowering

/-- The string of a text; a surrogate is shown as a replacement character. -/
def shownString (t : Text) : String :=
  String.ofList (t.map fun c => c.toChar?.getD '\ufffd')

/-- The fault behind an error of the system. -/
def faultOf (e : IO.Error) : FileFault :=
  match e with
  | .noFileOrDirectory .. => .missing
  | .inappropriateType _ 21 _ => .isDirectory
  | .inappropriateType _ 20 _ => .notDirectory
  | .permissionDenied .. => .denied
  | e => .other (toString e : String)

def readBytes (path : Path) : IO (Except FileFault (List UInt8)) := do
  try
    let bytes ← IO.FS.readBinFile (shownString path.text)
    return .ok bytes.toList
  catch e => return .error (faultOf e)

/-- The names in a directory of the system. -/
def namesIn (path : Path) : IO (List Text) := do
  try
    let directory ← IO.FS.realPath (shownString path.text)
    let entries ← directory.readDir
    return entries.toList.map fun entry => Text.ofString entry.fileName
  catch _ => return []

def systemFiles : FileAccess IO := ⟨readBytes, namesIn⟩

/-- How the program is called. -/
def usageText : String :=
  "usage: [-h] [-o OUTPUT] [--module-id MODULE_ID] [--runtime-module]\n" ++
  "       [--external-pattern EXTERNAL_PATTERN] [--import-path SPEC=PATH]\n" ++
  "       [--config CONFIG] [--json] [-v]\n" ++
  "       source\n"

/-- Writes a file and says what there is to say. -/
def deliver (report : CommandLine.Report) : IO UInt32 := do
  let stdout ← IO.getStdout
  let stderr ← IO.getStderr
  if let some (path, text) := report.written then
    match text.toUtf8? with
    | none => throw (IO.userError "the text holds a surrogate")
    | some bytes => IO.FS.writeBinFile (shownString path.text) ⟨bytes.toArray⟩
  stderr.putStr (shownString report.stderr)
  stdout.putStr (shownString report.stdout)
  return .ofNat report.exitCode

/-- Lowers the file that the arguments name. -/
def main (arguments : List String) : IO UInt32 := do
  match ← CommandLine.run systemFiles (arguments.map Text.ofString) with
  | .usage .help =>
    (← IO.getStdout).putStr usageText
    return 0
  | .usage .misuse =>
    (← IO.getStderr).putStr usageText
    return 2
  | .broken _ =>
    (← IO.getStderr).putStrLn "the input cannot be processed"
    return 1
  | .done report => deliver report
