import ModuleLowering.Log
import ModuleLowering.Pattern.Match
import ModuleLowering.Registry.Names
import ModuleLowering.Text.Quoted

/-!
# Resolver

Which module a specifier stands for: one that the host loads itself, or one that the registry knows
by a path, for which a table may give another one. Each module gets one identifier, when it is
resolved first, whatever specifiers stand for it later.
-/

set_option autoImplicit false

namespace ModuleLowering

/-- What makes two specifiers stand for the same module. -/
structure ModuleKey where
  isExternal : Bool
  path : Text
deriving DecidableEq, Inhabited

/-- A module that has been resolved. -/
structure ResolvedModule where
  /-- The specifier that it was resolved by first. -/
  specifier : Text
  key : ModuleKey
  /-- The identifier that holds the module. -/
  ident : Text
deriving DecidableEq, Inhabited

namespace ResolvedModule

/-- What is noted when a module gets its identifier. -/
def event (m : ResolvedModule) : Event :=
  let suffix : Text := if m.key.isExternal then " (external)" else []
  ⟨.debug, .resolver,
    "resolved " ++ m.specifier.shown ++ " -> " ++ m.key.path.shown ++ " as " ++ m.ident ++ suffix⟩

end ResolvedModule

/-- What the modules of a program are resolved by. -/
structure Resolution where
  /-- Which specifiers are external. -/
  external : Option Pattern := none
  /-- The paths of specifiers. -/
  paths : List (Text × Text) := []

namespace Resolution

/-- Whether the host loads a module itself. -/
def isExternal (r : Resolution) (specifier : Text) : Bool :=
  match r.external with
  | none => false
  | some pattern => pattern.occursIn specifier

/-- The path that the table gives for a specifier, or the specifier. -/
def mappedPath (r : Resolution) (specifier : Text) : Text :=
  ((r.paths.find? (·.1 = specifier)).map (·.2)).getD specifier

/-- The path of a specifier; the table does not count for external modules. -/
def actualPath (r : Resolution) (specifier : Text) : Text :=
  if r.isExternal specifier then specifier else r.mappedPath specifier

def key (r : Resolution) (specifier : Text) : ModuleKey :=
  ⟨r.isExternal specifier, r.actualPath specifier⟩

end Resolution

/-- A specifier as an identifier: an underscore, and one for every code point that is no ASCII letter
or digit. -/
def identOfSpecifier (specifier : Text) : Text :=
  let underscore : CodePoint := '_'
  underscore :: specifier.map fun (c : CodePoint) =>
    if c.isAsciiLetter || c.isAsciiDigit then c else underscore

/-- The modules that have been resolved in a program, in the order in which they were, and the names
that are taken there. -/
structure Resolver where
  resolution : Resolution
  names : Names
  modules : List ResolvedModule := []

namespace Resolver

def find? (r : Resolver) (key : ModuleKey) : Option ResolvedModule :=
  r.modules.find? (·.key = key)

/-- Adds a module under a new identifier. -/
def register (r : Resolver) (specifier : Text) : ResolvedModule × Resolver :=
  let (ident, names) := r.names.fresh (identOfSpecifier specifier)
  let entry : ResolvedModule := ⟨specifier, r.resolution.key specifier, ident⟩
  (entry, { r with names, modules := r.modules ++ [entry] })

/-- The module that a specifier stands for; an unknown one is added. -/
def resolve (r : Resolver) (specifier : Text) : ResolvedModule × Resolver :=
  match r.find? (r.resolution.key specifier) with
  | some entry => (entry, r)
  | none => r.register specifier

end Resolver

end ModuleLowering
