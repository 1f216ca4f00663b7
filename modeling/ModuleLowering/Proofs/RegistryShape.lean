import ModuleLowering.Proofs.OnRegistry

/-!
# The shape of a module that publishes something

On the registry such a module consists of four parts: the modules that it reads from are made
available, what it takes from them is bound, then comes what is left of its own statements, and at
the end the registry is told what it publishes. Import and export forms are gone but for the
imports of what the host loads itself.
-/

set_option autoImplicit false

namespace ModuleLowering

namespace Lowering

/-- The statements that make modules available under their identifiers. -/
def registrationsOf (registered : List (ModuleKey × Text)) : List Node :=
  registered.flatMap fun m => m.1.registration m.2

/-- What is left of statements whose items go by some names. -/
def remaindersOf (statements : List Node) (named : List (List NamedItem)) : List Node :=
  (List.zipWith (fun s ns => s.remainder true (ns.map NamedItem.name)) statements named).flatten

/-- The statement that tells the registry what items publish. -/
def publicationOf (config : Config) (items : List NamedItem) : Node :=
  Registry.publication config.moduleId (items.filterMap NamedItem.property?)
    (items.filterMap NamedItem.wildcard?)

/-! ## Import and export forms -/

/-- The only import or export form that makes a module available is the import of an external one.
-/
theorem moduleForm_of_mem_registrationsOf {registered : List (ModuleKey × Text)} {s : Node}
    (hs : s ∈ registrationsOf registered) (hform : s.isModuleForm = true) :
    ∃ m ∈ registered, m.1.isExternal = true ∧ s = Node.wholeImport m.2 (.text m.1.path) := by
  obtain ⟨m, hm, hsm⟩ := List.mem_flatMap.1 hs
  unfold ModuleKey.registration at hsm
  split at hsm
  case isTrue hexternal =>
    rcases List.mem_cons.1 hsm with rfl | hcall
    · exact ⟨m, hm, hexternal, rfl⟩
    · rw [List.mem_singleton.1 hcall] at hform
      cases hform
  case isFalse =>
    rw [List.mem_singleton.1 hsm] at hform
    cases hform

/-- A statement that reads from a module is no import or export form. -/
theorem not_moduleForm_of_readFrom {resolution : Resolution} {registered : List (ModuleKey × Text)}
    {items : List NamedItem} {bindings : List Node}
    (h : List.Forall₂ (ReadFrom resolution registered) items bindings) :
    ∀ s ∈ bindings, s.isModuleForm = false := by
  induction h with
  | nil =>
    intro s hs
    exact absurd hs List.not_mem_nil
  | cons hread _ ih =>
    intro s hs
    rcases List.mem_cons.1 hs with rfl | hs
    · obtain ⟨member, specifier, ident, -, -, rfl⟩ := hread
      rfl
    · exact ih s hs

theorem not_moduleForm_of_mem_remaindersOf {statements : List Node} {named : List (List NamedItem)}
    (h : ∀ s ∈ statements, s.Supported) :
    ∀ t ∈ remaindersOf statements named, t.isModuleForm = false := by
  intro t ht
  obtain ⟨rest, hrest, htrest⟩ := List.mem_flatten.1 ht
  rw [← List.map_uncurry_zip_eq_zipWith] at hrest
  obtain ⟨⟨s, ns⟩, hpair, rfl⟩ := List.mem_map.1 hrest
  exact Node.isModuleForm_remainder (h s (List.of_mem_zip hpair).1) htrest

/-! ## The module -/

namespace Stages

variable {config : Config} {program : Node} {body : List Node} {found : List (List Finding)}
  {bindings : List Node}

/-- What is left of the statements, in terms of their items. -/
theorem remains_eq (h : Stages config program body found bindings)
    (hmode : config.runtimeModule = true) :
    (collection config program).body =
      remaindersOf program.statements (found.map (List.map Finding.named)) := by
  rw [h.remains, h.statements_eq, hmode]
  unfold remaindersOf
  rw [List.zipWith_map_right]
  simp only [List.map_map]
  rfl

/-- What is published, in terms of the items. -/
theorem publication_eq (h : Stages config program body found bindings) :
    ExportRecord.publication config.moduleId (collection config program).exports =
      publicationOf config (found.map (List.map Finding.named)).flatten := by
  unfold ExportRecord.publication publicationOf Collection.exports
  rw [h.findings, flatten_named, List.filterMap_filterMap, List.filterMap_filterMap,
    List.filterMap_map, List.filterMap_map]
  refine congrArg₂ _ ?_ ?_
  · exact List.filterMap_congr fun f _ => f.property?_eq
  · exact List.filterMap_congr fun f _ => f.wildcard?_eq

end Stages

/-- A module that publishes something consists on the registry of the registrations of the modules
that it reads from, the bindings of what it takes from them, what is left of its statements, and the
publication. The only import or export forms in it import external modules. -/
theorem ofProgram_registry_shape {config : Config} {program : Node} {l : Lowering}
    (hmode : config.runtimeModule = true) (h : (ofProgram config program).result.1 = .ok l)
    (hexports : l.exports ≠ []) :
    ∃ named registered bindings, OnRegistry config program named registered bindings ∧
      l.program = program.withForm (.program
        (registrationsOf registered ++ bindings ++ remaindersOf program.statements named ++
          [publicationOf config named.flatten])) ∧
      ∀ s ∈ l.program.statements, s.isModuleForm = true →
        ∃ m ∈ registered, m.1.isExternal = true ∧ s = Node.wholeImport m.2 (.text m.1.path) := by
  obtain ⟨body, found, bindings, hstages, hl⟩ := stages_of_ok h
  obtain ⟨object, rest, hprogram, -, hending⟩ := hstages.lowered hl
  have honRegistry := hstages.onRegistry hmode
  have hsame : l.exports = (collection config program).exports := by
    rw [hl]
    unfold assemble
    dsimp only
    split <;> rfl
  cases hending with
  | rewritten boundary hnone => exact absurd (hsame.trans hnone) hexports
  | published _ hobject hrest =>
    have hregistrations : registrations config program = registrationsOf
        ((resolver config program).modules.map fun m => (m.key, m.ident)) := by
      unfold registrations registrationsOf
      rw [List.flatMap_map]
    have hshape : l.program = program.withForm (.program (registrationsOf
        ((resolver config program).modules.map fun m => (m.key, m.ident)) ++ bindings ++
        remaindersOf program.statements (found.map (List.map Finding.named)) ++
        [publicationOf config (found.map (List.map Finding.named)).flatten])) := by
      rw [hprogram, hobject, hrest, hstages.remains_eq hmode, hstages.publication_eq,
        hregistrations]
      simp
    refine ⟨_, _, bindings, honRegistry, hshape, ?_⟩
    rw [hshape]
    intro s hs hform
    rcases List.mem_append.1 hs with hs | hs
    · rcases List.mem_append.1 hs with hs | hs
      · rcases List.mem_append.1 hs with hs | hs
        · exact moduleForm_of_mem_registrationsOf hs hform
        · have hplain := not_moduleForm_of_readFrom honRegistry.bindings s hs
          exact absurd (hplain.symm.trans hform) Bool.false_ne_true
      · have hplain := not_moduleForm_of_mem_remaindersOf honRegistry.supported s hs
        exact absurd (hplain.symm.trans hform) Bool.false_ne_true
    · rw [List.mem_singleton.1 hs] at hform
      cases hform

/-- A module with imports from local and external modules and every kind of export has this shape.
-/
theorem registry_shape_of_every_kind :
    ∃ config source program l named registered bindings,
      Node.ofSource source = .ok program ∧ (ofProgram config program).result.1 = .ok l ∧
      l.exports ≠ [] ∧ OnRegistry config program named registered bindings ∧
      l.program = program.withForm (.program
        (registrationsOf registered ++ bindings ++ remaindersOf program.statements named ++
          [publicationOf config named.flatten])) := by
  have htest : lowersTo
      { moduleId := "main", runtimeModule := true, importPaths := some [("x", "lib/x.js")],
        external := some ⟨"y", [.literal 'y'], [], []⟩ }
      ("import a from 'x'; import * as b from 'y'; ; export const c = a; a(); export * from 'x';" ++
        "export default b; export \x7ba as d\x7d;")
      (fun _ l => !l.exports.isEmpty) = true := by
    decide +kernel
  obtain ⟨program, l, hprogram, hl, hsome⟩ := exists_of_lowersTo htest
  have hexports : l.exports ≠ [] := by
    intro hnil
    rw [hnil] at hsome
    cases hsome
  obtain ⟨named, registered, bindings, hfront, hshape, -⟩ :=
    ofProgram_registry_shape rfl hl hexports
  exact ⟨_, _, program, l, named, registered, bindings, hprogram, hl, hexports, hfront, hshape⟩

end Lowering

end ModuleLowering
