import ModuleLowering.Files.Path

/-!
# Files

What can be asked of files, and what may go wrong; and a tree of files that is held in memory, which
answers as a file system does that holds these files and the directories around them.
-/

set_option autoImplicit false

namespace ModuleLowering

/-- Why a file cannot be used. -/
inductive FileFault where
  | missing
  | isDirectory
  | notDirectory
  | denied
  /-- Anything else, in the words of the system. -/
  | other (reason : Text)
deriving DecidableEq

namespace FileFault

def reason : FileFault → Text
  | missing => "No such file or directory"
  | isDirectory => "Is a directory"
  | notDirectory => "Not a directory"
  | denied => "Permission denied"
  | other reason => reason

end FileFault

/-- What can be asked of files in some surroundings. -/
structure FileAccess (m : Type → Type) where
  /-- The bytes of a file. -/
  read : Path → m (Except FileFault (List UInt8))
  /-- The names in a directory; none if there is no such directory. -/
  names : Path → m (List Text)

/-- Why a file cannot be read as text. -/
inductive ReadFault where
  | file (fault : FileFault)
  | notText
deriving DecidableEq

/-- The text of a file, with a line feed for every line break. -/
def FileAccess.readText {m : Type → Type} [Monad m] (access : FileAccess m) (path : Path) :
    m (Except ReadFault Text) := do
  match ← access.read path with
  | .error fault => return .error (.file fault)
  | .ok bytes =>
    match Text.ofUtf8? bytes with
    | some t => return .ok t.unixLines
    | none => return .error .notText

/-- Why a text cannot be written to a file. -/
inductive WriteFault where
  | file (fault : FileFault)
  | notEncodable
deriving DecidableEq

/-! ## Trees -/

/-- What stands at a place in a tree. -/
inductive FileTree.Entry where
  | file (bytes : List UInt8)
  | directory

/-- A tree of files: entries at their places. The directories above an entry are there too. -/
structure FileTree where
  entries : List (List Text × FileTree.Entry)

namespace FileTree

def entry? (t : FileTree) (place : List Text) : Option Entry :=
  match t.entries.find? (·.1 = place) with
  | some (_, entry) => some entry
  | none =>
    if place.isEmpty || t.entries.any fun entry => place.isPrefixOf entry.1 then some .directory
    else none

/-- Follows the parts of a path from a directory. Beyond the top of the tree, where the directory is
none, only the way up is known. The result is the place that is reached and what stands there. -/
def follow (t : FileTree) :
    Option (List Text) → List Text → Except FileFault (Option (List Text) × Option Entry)
  | directory, [] => .ok (directory, some .directory)
  | none, part :: rest => if part = ".." then t.follow none rest else .error .missing
  | some directory, part :: rest =>
    if part = ".." then
      t.follow (if directory.isEmpty then none else some directory.dropLast) rest
    else
      let here := directory ++ [part]
      match t.entry? here with
      | some .directory => t.follow (some here) rest
      | some entry => if rest.isEmpty then .ok (some here, some entry) else .error .notDirectory
      | none => if rest.isEmpty then .ok (some here, none) else .error .missing

/-- The place of a path, and what stands there. -/
def locate (t : FileTree) (path : Path) :
    Except FileFault (Option (List Text) × Option Entry) :=
  if path.root.isEmpty then t.follow (some []) path.parts else t.follow none path.parts

def read (t : FileTree) (path : Path) : Except FileFault (List UInt8) := do
  match ← t.locate path with
  | (_, some (.file bytes)) => return bytes
  | (_, some .directory) => throw .isDirectory
  | (_, none) => throw .missing

/-- The names in a directory, each once. -/
def names (t : FileTree) (path : Path) : List Text :=
  match t.locate path with
  | .ok (some place, some .directory) =>
    let below (entry : List Text × Entry) : Option Text :=
      if place.isPrefixOf entry.1 then (entry.1.drop place.length).head? else none
    (t.entries.filterMap below).eraseDups
  | _ => []

/-- The tree with a file written. Its directory has to be there. -/
def write (t : FileTree) (path : Path) (bytes : List UInt8) : Except FileFault FileTree := do
  match ← t.locate path with
  | (_, some .directory) => throw .isDirectory
  | (none, _) => throw .missing
  | (some place, _) =>
    return ⟨t.entries.filter (fun entry => entry.1 ≠ place) ++ [(place, .file bytes)]⟩

def writeText (t : FileTree) (path : Path) (text : Text) : Except WriteFault FileTree := do
  let bytes := text.toUtf8?
  let written ← (t.write path (bytes.getD [])).mapError .file
  if bytes.isSome then return written else throw .notEncodable

/-- The tree as surroundings. -/
def access (t : FileTree) : FileAccess Id := ⟨t.read, t.names⟩

end FileTree

end ModuleLowering
