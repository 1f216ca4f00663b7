import ModuleLowering.Proofs.Items
import ModuleLowering.Registry.Lowering

/-!
# Items and records

The records of a finding say no more than its item and the name that it goes by: what is read from
which module and under which name, and what is published under which key.
-/

set_option autoImplicit false

namespace ModuleLowering

/-! ## What is taken -/

/-- The expression that reads a member of the module that `ident` holds. -/
def Member.read (ident : Text) : Member → Node
  | named name => (Node.identifier ident).memberNamed name
  | whole => Registry.asWildcard ident

/-- The module that an item takes something from. -/
def ModuleItem.moduleKey? (resolution : Resolution) (item : ModuleItem) : Option ModuleKey :=
  match item.taken? with
  | some (_, .text specifier) => some (resolution.key specifier)
  | _ => none

namespace ImportRecord

/-- What a record takes. -/
def member (r : ImportRecord) : Member :=
  match r.kind with
  | .default | .defaultAsNamed => .named "default"
  | .named => .named r.importedName
  | .whole => .whole

theorem value_eq_read (r : ImportRecord) (ident : Text) : r.value ident = r.member.read ident := by
  unfold value member
  cases r.kind <;> rfl

/-- The new names of a record: that of something passed on. -/
def newNames (r : ImportRecord) : List Text := if r.reexported then [r.name] else []

end ImportRecord

namespace Finding

theorem importRecord?_name {f : Finding} {r : ImportRecord} (h : f.importRecord? = some r) :
    r.name = f.name := by
  cases f <;> cases h <;> rfl

/-- A record takes what the item of its finding says. -/
theorem taken?_eq (f : Finding) :
    f.item.taken? = f.importRecord?.map fun r => (r.member, r.source) := by
  cases f
  case importedName imported name source =>
    by_cases hname : imported = name <;>
      simp [item, ModuleItem.taken?, importRecord?, ImportRecord.member,
        ImportRecord.importedName, hname]
  case reexportedName original exported source name =>
    by_cases hdefault : original = "default" <;>
      simp [item, ModuleItem.taken?, importRecord?, ImportRecord.member,
        ImportRecord.importedName, hdefault]
  all_goals rfl

theorem name_mem_words_or_newName? (f : Finding) :
    f.name ∈ f.item.words ∨ f.newName? = some f.name := by
  cases f <;> first | exact Or.inr rfl | exact Or.inl (by simp [name, item, ModuleItem.words])

/-- What a record takes, the item of its finding names. -/
theorem importRecord?_spec {f : Finding} {r : ImportRecord} (h : f.importRecord? = some r) :
    (r.kind = .named → r.importedName ∈ f.item.words) ∧
      (r.reexported = false → r.name ∈ f.item.words) ∧
      r.newNames = f.passedName?.toList := by
  cases f
  case importedName imported name source =>
    cases h
    by_cases hname : imported = name <;>
      simp [ImportRecord.importedName, item, ModuleItem.words, hname, ImportRecord.newNames,
        passedName?, ModuleItem.isPassed]
  case reexportedName original exported source name =>
    cases h
    by_cases hdefault : original = "default" <;>
      simp [ImportRecord.importedName, item, ModuleItem.words, hdefault, ImportRecord.newNames,
        passedName?, ModuleItem.isPassed, Finding.name]
  all_goals cases h
  all_goals
    simp [item, ModuleItem.words, ImportRecord.newNames, passedName?, ModuleItem.isPassed,
      Finding.name]

theorem passedName?_eq_none {f : Finding} (h : f.importRecord? = none) : f.passedName? = none := by
  cases f <;> first | rfl | cases h

/-- The new names of records are those of what is passed on. -/
theorem flatMap_newNames (fs : List Finding) :
    (fs.filterMap importRecord?).flatMap ImportRecord.newNames = fs.filterMap passedName? := by
  induction fs with
  | nil => rfl
  | cons f fs ih =>
    rw [List.filterMap_cons, List.filterMap_cons]
    cases hrecord : f.importRecord? with
    | none =>
      rw [passedName?_eq_none hrecord]
      exact ih
    | some r =>
      dsimp only
      rw [List.flatMap_cons, (importRecord?_spec hrecord).2.2, ih]
      cases f.passedName? <;> rfl

/-- What a record publishes is what its finding goes by, under a name in the item or under the same
one. -/
theorem exportRecord?_spec {f : Finding} {r : ExportRecord} (h : f.exportRecord? = some r) :
    r.name = f.name ∧ (r.exportName = f.name ∨ r.exportName ∈ f.item.words) := by
  cases f <;> simp only [exportRecord?, Option.some.injEq, reduceCtorEq] at h
  all_goals subst h
  case exportedName name exported =>
    refine ⟨rfl, ?_⟩
    by_cases hname : exported = name
    · left
      simp [ExportRecord.exportName, ModuleKind.isDefault, hname, Finding.name]
    · simp only [ExportRecord.exportName, ModuleKind.isDefault, hname]
      cases exported <;> simp [item, ModuleItem.words, Finding.name]
  case reexportedName original exported source name =>
    refine ⟨rfl, ?_⟩
    cases exported <;> simp [ExportRecord.exportName, ModuleKind.isDefault, item,
      ModuleItem.words, Finding.name]
  case reexportedWhole exported source name =>
    refine ⟨rfl, ?_⟩
    cases exported <;> simp [ExportRecord.exportName, ModuleKind.isDefault, item,
      ModuleItem.words, Finding.name]
  all_goals
    exact ⟨rfl, by simp [ExportRecord.exportName, ModuleKind.isDefault, item, ModuleItem.words,
      Finding.name]⟩

end Finding

/-! ## What is published -/

namespace NamedItem

/-- The property that publishes an item. A name without letters does not count as one. -/
def property? (n : NamedItem) : Option Node :=
  n.item.key?.map fun key => Registry.publishedProperty (if key.isEmpty then n.name else key) n.name

/-- The name that holds a module all of which is published. -/
def wildcard? (n : NamedItem) : Option Text := if n.item.isWildcard then some n.name else none

end NamedItem

namespace Finding

theorem exists_exportRecord {f : Finding} {name? : Option Text} {exported : Text}
    (h : f.item = .published name? exported) : ∃ r, f.exportRecord? = some r := by
  cases f <;> first | exact ⟨_, rfl⟩ | cases h

theorem defaultName?_eq_none {f : Finding} (h : f.exportRecord? = none) :
    f.defaultName? = none := by
  cases f <;> first | rfl | cases h

/-- A record publishes by name what the item of its finding says. -/
theorem property?_eq (f : Finding) :
    f.exportRecord?.bind ExportRecord.property? = f.named.property? := by
  cases f
  case defaultGivenName | defaultDeclared | defaultBound => rfl
  case exportedName name exported =>
    by_cases hname : exported = name <;>
      simp [exportRecord?, ExportRecord.property?, ExportRecord.exportName, ModuleKind.isDefault,
        NamedItem.property?, named, item, ModuleItem.key?, hname, Finding.name]
  all_goals
    simp [exportRecord?, ExportRecord.property?, ExportRecord.exportName, ModuleKind.isDefault,
      NamedItem.property?, named, item, ModuleItem.key?, Finding.name]

theorem wildcard?_eq (f : Finding) :
    f.exportRecord?.bind ExportRecord.wildcard? = f.named.wildcard? := by
  cases f <;> rfl

end Finding

end ModuleLowering
