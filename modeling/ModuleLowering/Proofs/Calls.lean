import ModuleLowering.Proofs.Occurrences
import ModuleLowering.Registry.Call

/-!
# Names in registry calls

What occurs in the statements that a lowered module is given, and what they declare.
-/

set_option autoImplicit false

namespace ModuleLowering

open Node

namespace Node

/-! ## Expressions -/

@[simp] theorem occurrences_identifier (x : Text) :
    (identifier x).occurrences = [(.alone, x)] := rfl

@[simp] theorem occurrences_literal (v : Value) : (literal v).occurrences = [] := rfl

@[simp] theorem occurrences_textLiteral (t : Text) : (textLiteral t).occurrences = [] := rfl

theorem occurrences_memberNamed_identifier (x name : Text) :
    ((identifier x).memberNamed name).occurrences = [(.object, x), (.member, name)] := rfl

theorem occurrences_memberNamed {object : Node} (h : object.name? = none) (name : Text) :
    (object.memberNamed name).occurrences = object.occurrences ++ [(.member, name)] := by
  unfold memberNamed
  rw [occurrences_staticMember rfl]
  unfold partOccurrences occurrencesAs
  simp only [Option.bind_some, h, Option.map_some, Option.getD_some]
  rfl

/-- What occurs in a member of a member … of anything but an identifier. -/
theorem occurrences_memberPath {object : Node} (h : object.name? = none) (names : List Text) :
    (object.memberPath names).occurrences =
      object.occurrences ++ names.map (Prod.mk .member) := by
  induction names generalizing object with
  | nil => exact (List.append_nil _).symm
  | cons name names ih =>
    show ((object.memberNamed name).memberPath names).occurrences = _
    rw [ih rfl, occurrences_memberNamed h, List.append_assoc]
    rfl

theorem occurrences_memberPath_identifier (x name : Text) (names : List Text) :
    ((identifier x).memberPath (name :: names)).occurrences =
      (.object, x) :: (name :: names).map (Prod.mk .member) := by
  show (((identifier x).memberNamed name).memberPath names).occurrences = _
  rw [occurrences_memberPath rfl, occurrences_memberNamed_identifier]
  rfl

theorem occurrences_callOf (callee : Node) (arguments : List Node) :
    (callOf callee arguments).occurrences =
      callee.occurrences ++ arguments.flatMap occurrences := by
  unfold callOf
  rw [occurrences_made rfl]
  simp [Form.identifier?, Form.parts, Form.slots, Slot.parts]

theorem occurrences_assignment (operator : Text) (left right : Option Node) :
    (made (.assignmentExpression operator left right)).occurrences =
      left.toList.flatMap occurrences ++ right.toList.flatMap occurrences := by
  rw [occurrences_made rfl]
  simp [Form.identifier?, Form.parts, Form.slots, Slot.parts]

/-! ## Statements -/

theorem occurrences_declarator (name : Text) (init : Option Node) :
    (made (.variableDeclarator (some (identifier name)) init)).occurrences =
      (.alone, name) :: init.toList.flatMap occurrences := by
  rw [occurrences_made rfl]
  simp [Form.identifier?, Form.parts, Form.slots, Slot.parts]

theorem occurrences_constant (name : Text) (init : Option Node) :
    (constant name init).occurrences = (.alone, name) :: init.toList.flatMap occurrences := by
  unfold constant
  rw [occurrences_made rfl]
  simp [Form.identifier?, Form.parts, Form.slots, Slot.parts, occurrences_declarator]

@[simp] theorem declaredNames_constant (name : Text) (init : Option Node) :
    (constant name init).declaredNames = [name] := rfl

theorem occurrences_asStatement (e : Node) : (asStatement e).occurrences = e.occurrences := by
  unfold asStatement
  rw [occurrences_made rfl]
  simp [Form.identifier?, Form.parts, Form.slots, Slot.parts]

@[simp] theorem declaredNames_asStatement (e : Node) : (asStatement e).declaredNames = [] := rfl

@[simp] theorem occurrences_defaultImport (name : Text) (source : Value) :
    (defaultImport name source).occurrences = [(.alone, name)] := rfl

@[simp] theorem occurrences_namedImport (name imported : Text) (source : Value) :
    (namedImport name imported source).occurrences = [(.alone, name), (.alone, imported)] := rfl

@[simp] theorem occurrences_wholeImport (name : Text) (source : Value) :
    (wholeImport name source).occurrences = [(.alone, name)] := rfl

@[simp] theorem declaredNames_defaultImport (name : Text) (source : Value) :
    (defaultImport name source).declaredNames = [name] := rfl

@[simp] theorem declaredNames_namedImport (name imported : Text) (source : Value) :
    (namedImport name imported source).declaredNames = [name] := rfl

@[simp] theorem declaredNames_wholeImport (name : Text) (source : Value) :
    (wholeImport name source).declaredNames = [name] := rfl

end Node

namespace Registry

/-- The host and the names of the members on the way to a part of the registry. -/
def partOccurrences (names : List Text) : List (Standing × Text) :=
  (.object, "global") :: (.member, "__modules") :: names.map (Prod.mk .member)

theorem occurrences_part (names : List Text) :
    (part names).occurrences = partOccurrences names :=
  occurrences_memberPath_identifier "global" "__modules" names

theorem occurrences_call (entry : Text) (arguments : List Node) :
    (call entry arguments).occurrences =
      partOccurrences [entry] ++ arguments.flatMap occurrences := by
  unfold call
  rw [occurrences_callOf, occurrences_part]

theorem occurrences_asWildcard (name : Text) :
    (asWildcard name).occurrences =
      partOccurrences ["helpers", "asWildcard"] ++ [(.alone, name)] := by
  unfold asWildcard
  rw [occurrences_callOf, occurrences_part]
  rfl

theorem occurrences_publishedProperty (key name : Text) :
    (publishedProperty key name).occurrences = [(.alone, key), (.alone, name)] := rfl

/-- What occurs in the statement that tells the registry what a module publishes. -/
theorem occurrences_publication (moduleId : Text) (properties : List Node)
    (wildcards : List Text) :
    (publication moduleId properties wildcards).occurrences =
      partOccurrences ["esm"] ++
        (properties.flatMap occurrences ++ wildcards.map (Prod.mk .alone)) := by
  unfold publication
  rw [occurrences_asStatement, occurrences_call, List.flatMap_cons, List.flatMap_cons,
    occurrences_made rfl, List.flatMap_map]
  simp [Form.identifier?, Form.parts, Form.slots, Slot.parts, List.map_eq_flatMap]

end Registry

end ModuleLowering
