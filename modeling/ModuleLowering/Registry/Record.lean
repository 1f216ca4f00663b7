import ModuleLowering.Syntax.Node

/-!
# Imports and exports

Every form in which a module takes something from another one or publishes something comes down to
one of these records.
-/

set_option autoImplicit false

namespace ModuleLowering

/-- What of a module is taken or published. -/
inductive ModuleKind where
  /-- The default. -/
  | default
  /-- A name. -/
  | named
  /-- The default, by the name it has. -/
  | defaultAsNamed
  /-- The module as a whole. -/
  | whole
deriving DecidableEq, Inhabited

namespace ModuleKind

def isDefault (k : ModuleKind) : Bool :=
  match k with
  | default | defaultAsNamed => true
  | named | whole => false

end ModuleKind

/-- Something taken from another module. -/
structure ImportRecord where
  /-- The name it gets here. -/
  name : Text
  /-- The specifier of the other module. -/
  source : Value
  kind : ModuleKind
  /-- The name it has there, if that is another one. -/
  imported : Option Text := none
  /-- Whether it is only passed on. -/
  reexported : Bool := false
deriving Inhabited

namespace ImportRecord

/-- The name that something taken has in the other module. -/
def importedName (r : ImportRecord) : Text := r.imported.getD r.name

end ImportRecord

/-- Something published. -/
structure ExportRecord where
  /-- The name it has here. -/
  name : Text
  kind : ModuleKind
  /-- The name it is published under, if that is another one. -/
  exported : Option Text := none
deriving DecidableEq, Inhabited

namespace ExportRecord

/-- The name that something is published under. -/
def exportName (r : ExportRecord) : Text :=
  if r.kind.isDefault then "default"
  else
    match r.exported with
    | some name => if name.isEmpty then r.name else name
    | none => r.name

end ExportRecord

end ModuleLowering
