import ModuleLowering.Proofs.Occurrences
import ModuleLowering.Registry.Collection

/-!
# What statements say about modules

Read off a statement alone: which members of other modules it imports or passes on, and what it
publishes; and what is left of it once each of these has a name in the lowered module. Nothing here
depends on the order in which a pass goes through a module or on the names it makes up.
-/

set_option autoImplicit false

namespace ModuleLowering

/-- What can be taken from a module. -/
inductive Member where
  /-- The member of this name; the default is the member named `default`. -/
  | named (name : Text)
  /-- The module as a whole. -/
  | whole
deriving DecidableEq

/-- One thing that a statement says about modules. -/
inductive ModuleItem where
  /-- A member of a module is imported under a name. -/
  | imported (member : Member) (source : Value) (name : Text)
  /-- A member of a module is published under a name. -/
  | reexported (member : Member) (source : Value) (exported : Text)
  /-- Everything that a module publishes is published. -/
  | reexportedAll (source : Value)
  /-- Something declared here is published; a default need not have a name. -/
  | published (name? : Option Text) (exported : Text)

namespace ModuleItem

/-- The name that the program gives to what an item brings in or publishes. -/
def ownName? : ModuleItem → Option Text
  | imported _ _ name => some name
  | published name? _ => name?
  | reexported .. | reexportedAll _ => none

/-- What an item takes from another module, and which one. -/
def taken? : ModuleItem → Option (Member × Value)
  | imported member source _ | reexported member source _ => some (member, source)
  | reexportedAll source => some (.whole, source)
  | published .. => none

/-- The name that an item publishes something under. -/
def key? : ModuleItem → Option Text
  | reexported _ _ exported | published _ exported => some exported
  | imported .. | reexportedAll _ => none

/-- Whether an item takes something from another module. -/
def isTaken (item : ModuleItem) : Bool := item.taken?.isSome

/-- Whether an item is a default that the program does not name. -/
def isUnnamed : ModuleItem → Bool
  | published none _ => true
  | _ => false

/-- Whether an item passes on what it takes from another module. -/
def isPassed : ModuleItem → Bool
  | reexported .. | reexportedAll _ => true
  | imported .. | published .. => false

/-- The names in an item. -/
def words : ModuleItem → List Text
  | imported (.named m) _ name => [m, name]
  | imported .whole _ name => [name]
  | reexported (.named m) _ exported => [m, exported]
  | reexported .whole _ exported => [exported]
  | reexportedAll _ => []
  | published name? exported => name?.toList ++ [exported]

/-- Whether an item publishes all of a module. -/
def isWildcard : ModuleItem → Bool
  | reexportedAll _ => true
  | _ => false

theorem ownName?_of_isPassed {item : ModuleItem} (h : item.isPassed = true) :
    item.ownName? = none := by
  cases item <;> first | rfl | cases h

theorem isWildcard_of_isPassed {item : ModuleItem} (h : item.isPassed = true)
    (hkey : item.key? = none) : item.isWildcard = true := by
  cases item with
  | reexportedAll source => rfl
  | reexported => cases hkey
  | imported => cases h
  | published => cases h

end ModuleItem

/-- An item with the name that it goes by in the lowered module. -/
structure NamedItem where
  item : ModuleItem
  name : Text

namespace Node

/-! ## Items -/

/-- The name that a part of a form gives. -/
def partName? (part : Option Node) : Option Text := part.bind name?

/-- The value that a part gives if it is a literal. -/
def literalValue? (part : Option Node) : Option Value :=
  match part.map form with
  | some (.literal value _) => some value
  | _ => none

/-- What a specifier of an import says. -/
def importItem? (source : Value) (specifier : Node) : Option ModuleItem :=
  match specifier.form with
  | .importDefaultSpecifier name => (partName? name).map (.imported (.named "default") source)
  | .importNamespaceSpecifier name => (partName? name).map (.imported .whole source)
  | .importSpecifier name imported =>
    (partName? imported).bind fun m => (partName? name).map (.imported (.named m) source)
  | _ => none

/-- What a specifier of an export of names of another module says. -/
def reexportItem? (source : Value) (specifier : Node) : Option ModuleItem :=
  match specifier.form with
  | .exportSpecifier name exported =>
    (partName? name).bind fun m => (partName? exported).map (.reexported (.named m) source)
  | _ => none

/-- What a specifier of an export of names of this module says. -/
def exportItem? (specifier : Node) : Option ModuleItem :=
  match specifier.form with
  | .exportSpecifier name exported =>
    (partName? name).bind fun n => (partName? exported).map (.published (some n))
  | _ => none

/-- What an exported declaration of a name says. -/
def declaredItem (name : Text) : ModuleItem := .published (some name) name

/-- What an exported declaration says: each name that it declares is published. -/
def declarationItems (declaration : Node) : List ModuleItem :=
  match declaration.form with
  | .variableDeclaration _ declarations =>
    declarations.filterMap fun d =>
      (Collecting.idPart? d).bind fun id => (partName? id).map declaredItem
  | .functionDeclaration id .. | .classDeclaration id .. => ((partName? id).map declaredItem).toList
  | _ => []

/-- How many names an exported declaration has to declare. -/
def declarationCount (declaration : Node) : Nat :=
  match declaration.form with
  | .variableDeclaration _ declarations => declarations.length
  | _ => 1

/-- The name that a default has: that of a function or class declaration. -/
def defaultName? (declaration : Option Node) : Option Text :=
  match declaration.map form with
  | some (.functionDeclaration id ..) | some (.classDeclaration id ..) => partName? id
  | _ => none

theorem defaultName?_function {declaration id : Option Node} {params : List Node}
    {body : Option Node} {isAsync generator : Bool}
    (h : declaration.map form = some (.functionDeclaration id params body isAsync generator)) :
    defaultName? declaration = partName? id := by
  unfold defaultName?
  rw [h]

theorem defaultName?_class {declaration id superclass : Option Node} {body : List Node}
    (h : declaration.map form = some (.classDeclaration id superclass body)) :
    defaultName? declaration = partName? id := by
  unfold defaultName?
  rw [h]

/-- Anything else that is a default has no name. -/
theorem defaultName?_eq_none {declaration : Option Node}
    (hfunction : ∀ d id params body isAsync generator, declaration = some d →
      declaration.map form = some (.functionDeclaration id params body isAsync generator) → False)
    (hclass : ∀ d id superclass body, declaration = some d →
      declaration.map form = some (.classDeclaration id superclass body) → False) :
    defaultName? declaration = none := by
  unfold defaultName?
  split
  case h_1 hd =>
    obtain ⟨d, rfl, -⟩ := Option.map_eq_some_iff.1 hd
    exact (hfunction d _ _ _ _ _ rfl hd).elim
  case h_2 hd =>
    obtain ⟨d, rfl, -⟩ := Option.map_eq_some_iff.1 hd
    exact (hclass d _ _ _ rfl hd).elim
  case h_3 => rfl

/-- The statements of a module. -/
def statements (program : Node) : List Node :=
  match program.form with
  | .program body => body
  | _ => []

/-- What a statement says about modules, in order. -/
def items (statement : Node) : List ModuleItem :=
  match statement.form with
  | .importDeclaration specifiers source =>
    (literalValue? source).elim [] fun v => specifiers.filterMap (importItem? v)
  | .exportDefaultDeclaration declaration => [.published (defaultName? declaration) "default"]
  | .exportNamedDeclaration (some declaration) _ _ => declaration.declarationItems
  | .exportNamedDeclaration none specifiers (some source) =>
    (literalValue? (some source)).elim [] fun v => specifiers.filterMap (reexportItem? v)
  | .exportNamedDeclaration none specifiers none => specifiers.filterMap exportItem?
  | .exportAllDeclaration source none => ((literalValue? source).map .reexportedAll).toList
  | .exportAllDeclaration source (some exported) =>
    ((literalValue? source).bind fun v => exported.name?.map (.reexported .whole v)).toList
  | _ => []

theorem exists_imported {v : Value} {specifier : Node} {item : ModuleItem}
    (h : importItem? v specifier = some item) : ∃ member name, item = .imported member v name := by
  unfold importItem? at h
  split at h
  case h_1 | h_2 =>
    obtain ⟨name, -, rfl⟩ := Option.map_eq_some_iff.1 h
    exact ⟨_, name, rfl⟩
  case h_3 =>
    obtain ⟨m, -, hname⟩ := Option.bind_eq_some_iff.1 h
    obtain ⟨name, -, rfl⟩ := Option.map_eq_some_iff.1 hname
    exact ⟨_, name, rfl⟩
  case h_4 => cases h

theorem exists_reexported {v : Value} {specifier : Node} {item : ModuleItem}
    (h : reexportItem? v specifier = some item) :
    ∃ member exported, item = .reexported member v exported := by
  unfold reexportItem? at h
  split at h
  case h_1 =>
    obtain ⟨m, -, hexported⟩ := Option.bind_eq_some_iff.1 h
    obtain ⟨exported, -, rfl⟩ := Option.map_eq_some_iff.1 hexported
    exact ⟨_, exported, rfl⟩
  case h_2 => cases h

theorem exists_published {specifier : Node} {item : ModuleItem}
    (h : exportItem? specifier = some item) :
    ∃ name exported, item = .published (some name) exported := by
  unfold exportItem? at h
  split at h
  case h_1 =>
    obtain ⟨name, -, hexported⟩ := Option.bind_eq_some_iff.1 h
    obtain ⟨exported, -, rfl⟩ := Option.map_eq_some_iff.1 hexported
    exact ⟨name, exported, rfl⟩
  case h_2 => cases h

theorem exists_declaredItem {declaration : Node} {item : ModuleItem}
    (h : item ∈ declaration.declarationItems) : ∃ name, item = declaredItem name := by
  unfold declarationItems at h
  split at h
  case h_1 =>
    obtain ⟨d, -, hd⟩ := List.mem_filterMap.1 h
    obtain ⟨id, -, hname⟩ := Option.bind_eq_some_iff.1 hd
    obtain ⟨name, -, rfl⟩ := Option.map_eq_some_iff.1 hname
    exact ⟨name, rfl⟩
  case h_2 | h_3 =>
    obtain ⟨name, -, rfl⟩ := Option.map_eq_some_iff.1 (Option.mem_toList.1 h)
    exact ⟨name, rfl⟩
  case h_4 => exact absurd h List.not_mem_nil

/-- How many things a statement has to say about modules: one for each specifier and for each name
that it declares and publishes, and one if it is another export. -/
def itemCount (statement : Node) : Nat :=
  match statement.form with
  | .importDeclaration specifiers _ | .exportNamedDeclaration none specifiers _ =>
    specifiers.length
  | .exportNamedDeclaration (some declaration) _ _ => declaration.declarationCount
  | .exportDefaultDeclaration _ | .exportAllDeclaration .. => 1
  | _ => 0

/-- Whether a statement is an import or export form. -/
def isModuleForm (statement : Node) : Bool :=
  match statement.form with
  | .importDeclaration .. | .exportDefaultDeclaration _ | .exportNamedDeclaration ..
  | .exportAllDeclaration .. => true
  | _ => false

theorem items_of_not_moduleForm {s : Node} (h : s.isModuleForm = false) :
    s.items = [] ∧ s.itemCount = 0 := by
  obtain ⟨loc, form⟩ := s
  cases form <;> first | exact ⟨rfl, rfl⟩ | cases h

/-- A statement says all that it has to about modules, and what it declares and publishes is not an
export or import form again. -/
structure Supported (statement : Node) : Prop where
  count : statement.items.length = statement.itemCount
  declared : ∀ declaration specifiers source,
    statement.form = .exportNamedDeclaration (some declaration) specifiers source →
      declaration.isModuleForm = false

/-- The part that names a default: that of a function or class declaration. -/
def defaultId? (declaration : Option Node) : Option Node :=
  match declaration.map form with
  | some (.functionDeclaration id ..) | some (.classDeclaration id ..) => id
  | _ => none

/-- A supported statement in which a default that has a part to name it is named by it. -/
structure Complete (statement : Node) : Prop extends Supported statement where
  named : ∀ declaration, statement.form = .exportDefaultDeclaration declaration →
    ∀ id ∈ defaultId? declaration, id.name?.isSome

/-- Whether it matters what a statement says: imports count on the registry only. -/
def isInspected (runtimeModule : Bool) (statement : Node) : Bool :=
  match statement.form with
  | .importDeclaration .. => runtimeModule
  | _ => true

/-- The items that are collected from a statement: imports only on the registry. -/
def collectedItems (runtimeModule : Bool) (statement : Node) : List ModuleItem :=
  match statement.form with
  | .importDeclaration .. => if runtimeModule then statement.items else []
  | _ => statement.items

theorem isInspected_true (s : Node) : s.isInspected true = true := by
  unfold isInspected
  split <;> rfl

theorem collectedItems_true (s : Node) : s.collectedItems true = s.items := by
  unfold collectedItems
  split <;> rfl

theorem collectedItems_default {s : Node} {declaration : Option Node} (runtimeModule : Bool)
    (h : s.form = .exportDefaultDeclaration declaration) :
    s.collectedItems runtimeModule = [.published (defaultName? declaration) "default"] := by
  rw [collectedItems, items, h]

theorem collectedItems_eq_nil {s : Node} (runtimeModule : Bool) (h : s.items = []) :
    s.collectedItems runtimeModule = [] := by
  unfold collectedItems
  split
  case h_1 =>
    rw [h, ite_self]
  case h_2 => exact h

/-- What is collected from a statement it says. -/
theorem mem_items_of_mem_collectedItems (runtimeModule : Bool) {s : Node} {item : ModuleItem}
    (h : item ∈ s.collectedItems runtimeModule) : item ∈ s.items := by
  unfold collectedItems at h
  split at h
  case h_1 =>
    cases runtimeModule with
    | true => exact h
    | false => exact absurd h List.not_mem_nil
  case h_2 => exact h

/-! ## What is left -/

/-- A function or class declaration with a name, which is `name` if it has none itself. -/
def withName (declaration : Node) (id : Option Node) (name : Text) : Node :=
  if (partName? id).isSome then declaration
  else Collecting.withId declaration (some (.identifier name))

/-- What is left of the export of a default that goes by `name`. -/
def defaultRemainder (runtimeModule : Bool) (statement : Node) (declaration : Option Node)
    (name : Text) : List Node :=
  let published (n : Node) : Node := statement.withForm (.exportDefaultDeclaration (some n))
  let declared (n : Node) : List Node := if runtimeModule then [n] else [published n]
  match declaration, declaration.map form with
  | some d, some (.functionDeclaration id ..) | some d, some (.classDeclaration id ..) =>
    declared (d.withName id name)
  | _, _ =>
    let binding := Node.mk statement.loc (Node.constant name declaration).form
    if runtimeModule then [binding] else [binding, published (.identifier name)]

/-- What is left of a statement whose items go by `names`. On the registry only declarations are
left of an import or export form; otherwise the forms stay. Idle statements go. -/
def remainder (runtimeModule : Bool) (statement : Node) (names : List Text) : List Node :=
  if Collecting.isIdle statement then []
  else
    match statement.form with
    | .exportDefaultDeclaration declaration =>
      defaultRemainder runtimeModule statement declaration (names.headD [])
    | .exportNamedDeclaration (some declaration) _ _ =>
      if runtimeModule then [declaration] else [statement]
    | .importDeclaration .. | .exportNamedDeclaration none _ _ | .exportAllDeclaration .. =>
      if runtimeModule then [] else [statement]
    | _ => [statement]

end Node

namespace Node

theorem remainder_of_not_moduleForm {s : Node} (h : s.isModuleForm = false)
    (hidle : Collecting.isIdle s = false) (runtimeModule : Bool) (names : List Text) :
    s.remainder runtimeModule names = [s] := by
  rw [remainder, hidle]
  obtain ⟨loc, form⟩ := s
  cases form <;> first | rfl | cases h

/-- A function or class declaration with a name is no import or export form. -/
theorem isModuleForm_withName {d : Node} (h : d.isModuleForm = false) (id : Option Node)
    (name : Text) : (d.withName id name).isModuleForm = false := by
  unfold withName Collecting.withId
  split
  case isTrue => exact h
  case isFalse =>
    split
    case h_1 => rfl
    case h_2 => rfl
    case h_3 => exact h

/-- On the registry no import or export form is left of the export of a default. -/
theorem isModuleForm_defaultRemainder {s t : Node} {declaration : Option Node} {name : Text}
    (ht : t ∈ defaultRemainder true s declaration name) : t.isModuleForm = false := by
  have hform : ∀ d form, declaration = some d → declaration.map Node.form = some form →
      d.form = form := by
    rintro d form rfl hd
    exact Option.some.inj hd
  unfold defaultRemainder at ht
  dsimp only at ht
  split at ht
  case h_3 =>
    rw [if_pos rfl, List.mem_singleton] at ht
    rw [ht]
    rfl
  all_goals
    rename_i hd
    rw [if_pos rfl, List.mem_singleton] at ht
    rw [ht]
    refine isModuleForm_withName ?_ _ _
    unfold isModuleForm
    rw [hform _ _ rfl hd]

/-- On the registry no import or export form is left of a supported statement. -/
theorem isModuleForm_remainder {s t : Node} {names : List Text} (hs : s.Supported)
    (ht : t ∈ s.remainder true names) : t.isModuleForm = false := by
  unfold remainder at ht
  split at ht
  case isTrue => exact absurd ht List.not_mem_nil
  case isFalse =>
    split at ht
    case h_1 => exact isModuleForm_defaultRemainder ht
    case h_2 declaration specifiers source hform =>
      rw [if_pos rfl, List.mem_singleton] at ht
      rw [ht]
      exact hs.declared declaration specifiers source hform
    case h_6 hdefault hdeclared himport hnamed hwhole =>
      rw [List.mem_singleton.1 ht]
      unfold isModuleForm
      split
      case h_1 hform => exact (himport _ _ hform).elim
      case h_2 hform => exact (hdefault _ hform).elim
      case h_3 declaration _ _ hform =>
        cases declaration with
        | none => exact (hnamed _ _ hform).elim
        | some d => exact (hdeclared d _ _ hform).elim
      case h_4 hform => exact (hwhole _ _ hform).elim
      case h_5 => rfl
    all_goals exact absurd ht List.not_mem_nil

end Node

namespace Finding

/-- What a finding says, read off the program. -/
def item : Finding → ModuleItem
  | importedDefault name source => .imported (.named "default") source name
  | importedWhole name source => .imported .whole source name
  | importedName imported name source => .imported (.named imported) source name
  | defaultGivenName _ _ | defaultBound _ => .published none "default"
  | defaultDeclared _ name => .published (some name) "default"
  | exportedName name exported => .published (some name) exported
  | exportedVariable _ name | exportedDeclaration _ name => .published (some name) name
  | reexportedName original exported source _ => .reexported (.named original) source exported
  | reexportedWhole exported source _ => .reexported .whole source exported
  | reexportedAll source _ => .reexportedAll source

/-- The name that what is found goes by. -/
def name : Finding → Text
  | importedDefault name _ | importedWhole name _ | importedName _ name _ => name
  | defaultGivenName _ name | defaultDeclared _ name | defaultBound name => name
  | exportedName name _ | exportedVariable _ name | exportedDeclaration _ name => name
  | reexportedName _ _ _ name | reexportedWhole _ _ name | reexportedAll _ name => name

/-- A finding as an item with its name. -/
def named (f : Finding) : NamedItem := ⟨f.item, f.name⟩

end Finding

namespace NamedItem

/-- The name of an item that the program does not name itself. -/
def newName? (f : NamedItem) : Option Text :=
  match f.item.ownName? with
  | none => some f.name
  | some _ => none

theorem newName?_of_own {f : NamedItem} {x : Text} (h : f.item.ownName? = some x) :
    f.newName? = none := by
  unfold newName?
  rw [h]

theorem newName?_of_not_own {f : NamedItem} (h : f.item.ownName? = none) :
    f.newName? = some f.name := by
  unfold newName?
  rw [h]

end NamedItem

namespace Finding

/-- The name of a finding that the program does not name itself. -/
def newName? (f : Finding) : Option Text := f.named.newName?

theorem name_eq_of_ownName? {f : Finding} {x : Text} (h : f.item.ownName? = some x) :
    f.name = x := by
  cases f <;> simp only [item, ModuleItem.ownName?, reduceCtorEq, Option.some.injEq] at h <;>
    exact h

/-- The name of a finding that is a default which the program does not name. -/
def defaultName? (f : Finding) : Option Text := if f.item.isUnnamed then some f.name else none

/-- The name of a finding that passes on what it takes from another module. -/
def passedName? (f : Finding) : Option Text := if f.item.isPassed then some f.name else none

/-- The new names of findings are those of what is passed on and those of defaults. -/
theorem newNames_perm (fs : List Finding) :
    (fs.filterMap newName?).Perm (fs.filterMap passedName? ++ fs.filterMap defaultName?) := by
  induction fs with
  | nil => exact .nil
  | cons f fs ih =>
    have hcases : f.newName? = f.passedName? ∧ f.defaultName? = none ∨
        f.newName? = f.defaultName? ∧ f.passedName? = none := by
      cases f <;> first | exact Or.inl ⟨rfl, rfl⟩ | exact Or.inr ⟨rfl, rfl⟩
    simp only [List.filterMap_cons]
    rcases hcases with ⟨hpassed, hdefault⟩ | ⟨hdefault, hpassed⟩
    · rw [hpassed, hdefault]
      cases f.passedName? with
      | none => exact ih
      | some x => exact ih.cons x
    · rw [hpassed, hdefault]
      cases f.defaultName? with
      | none => exact ih
      | some x => exact (ih.cons x).trans List.perm_middle.symm

end Finding

end ModuleLowering
