import ModuleLowering.Log
import ModuleLowering.Registry.Record

/-!
# Findings

What is found in the import and export forms of a module, one finding for each name that a form
brings in or publishes. A finding determines its records and what is noted about it.
-/

set_option autoImplicit false

namespace ModuleLowering

/-- A finding in an import or export form. -/
inductive Finding where
  /-- The default of a module is imported. -/
  | importedDefault (name : Text) (source : Value)
  /-- A module is imported as a whole. -/
  | importedWhole (name : Text) (source : Value)
  /-- A name of a module is imported. -/
  | importedName (imported name : Text) (source : Value)
  /-- A function or class without a name is the default; it gets this one. -/
  | defaultGivenName (typeName : String) (name : Text)
  /-- A function or class with a name is the default. -/
  | defaultDeclared (typeName : String) (name : Text)
  /-- The value of an expression is the default; it is bound to this name. -/
  | defaultBound (name : Text)
  /-- A name is published. -/
  | exportedName (name exported : Text)
  /-- A variable is declared and published. -/
  | exportedVariable (kind name : Text)
  /-- A function or class is declared and published. -/
  | exportedDeclaration (typeName : String) (name : Text)
  /-- A name of another module is published; it is bound to the new name `name`. -/
  | reexportedName (original exported : Text) (source : Value) (name : Text)
  /-- Another module is published as a whole under a name. -/
  | reexportedWhole (exported : Text) (source : Value) (name : Text)
  /-- Everything that another module publishes is published. -/
  | reexportedAll (source : Value) (name : Text)

namespace Finding

def importRecord? : Finding → Option ImportRecord
  | importedDefault name source => some ⟨name, source, .default, none, false⟩
  | importedWhole name source => some ⟨name, source, .whole, none, false⟩
  | importedName imported name source =>
    some ⟨name, source, .named, if imported = name then none else some imported, false⟩
  | reexportedName original _ source name =>
    let kind : ModuleKind := if original = "default" then .defaultAsNamed else .named
    some ⟨name, source, kind, some original, true⟩
  | reexportedWhole _ source name => some ⟨name, source, .whole, none, true⟩
  | reexportedAll source name => some ⟨name, source, .whole, none, true⟩
  | _ => none

def exportRecord? : Finding → Option ExportRecord
  | defaultGivenName _ name | defaultDeclared _ name | defaultBound name =>
    some ⟨name, .default, none⟩
  | exportedName name exported =>
    some ⟨name, .named, if exported = name then none else some exported⟩
  | exportedVariable _ name | exportedDeclaration _ name => some ⟨name, .named, none⟩
  | reexportedName _ exported _ name | reexportedWhole exported _ name =>
    some ⟨name, .named, some exported⟩
  | reexportedAll _ name => some ⟨name, .whole, none⟩
  | _ => none

/-- What is noted about a finding. -/
def message : Finding → Text
  | importedDefault name source => "default import " ++ name ++ " from " ++ source.shown
  | importedWhole name source => "namespace import " ++ name ++ " from " ++ source.shown
  | importedName imported name source =>
    "named import " ++ imported ++ " as " ++ name ++ " from " ++ source.shown
  | defaultGivenName typeName name => "anonymous default " ++ (typeName : Text) ++ " named " ++ name
  | defaultDeclared typeName name => "default " ++ (typeName : Text) ++ " " ++ name
  | defaultBound name => "default expression bound to " ++ name
  | exportedName name exported => "named export " ++ name ++ " as " ++ exported
  | exportedVariable kind name => "export " ++ kind ++ " " ++ name
  | exportedDeclaration typeName name => "export " ++ (typeName : Text) ++ " " ++ name
  | reexportedName original exported source name =>
    "re-export " ++ original ++ " as " ++ exported ++ " from " ++ source.shown ++ " via " ++ name
  | reexportedWhole exported source name =>
    "namespace re-export " ++ exported ++ " from " ++ source.shown ++ " via " ++ name
  | reexportedAll source name => "wildcard re-export from " ++ source.shown ++ " via " ++ name

def event (f : Finding) : Event := ⟨.debug, .collector, f.message⟩

end Finding

end ModuleLowering
