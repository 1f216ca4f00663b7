import ModuleLowering.Proofs.Collecting
import ModuleLowering.Proofs.Resolving
import ModuleLowering.Proofs.Rewriting

/-!
# The stages of a lowering

A successful lowering has collected the statements of the module, bound what it imports and put the
parts together. What each stage did is stated here once, in terms of the statements of the module
and of the findings in them; a module without exports has then been rewritten behind what was
bound.
-/

set_option autoImplicit false

namespace ModuleLowering

namespace Logged

variable {ε α : Type}

theorem yields_ofExcept {r : Except ε α} {a : α} {log log' : List Event} :
    Yields (ofExcept r) log a log' ↔ r = .ok a ∧ log = log' := by
  show ((r, log) : Except ε α × List Event) = (.ok a, log') ↔ _
  rw [Prod.mk.injEq]

theorem ok_of_mapError {δ : Type} {f : ε → δ} {r : Except ε α} {a : α}
    (h : r.mapError f = .ok a) : r = .ok a := by
  cases r with
  | error e => cases h
  | ok b =>
    cases h
    rfl

end Logged

namespace Lowering

/-- What the collector has collected at its end. -/
def collection (config : Config) (program : Node) : Collection :=
  (Collection.ofProgram config.runtimeModule (.ofProgram program) program).2

/-- The resolver after everything that a module imports has been bound. -/
def resolver (config : Config) (program : Node) : Resolver :=
  let c := collection config program
  ((ExceptT.run (c.imports.mapM (ImportRecord.binding config.runtimeModule))).run
    { resolution := config.resolution, names := c.names }).2

/-- A lowering succeeds if collecting and binding do. -/
theorem ofProgram_ok {config : Config} {program : Node} {l : Lowering}
    (h : (ofProgram config program).result.1 = .ok l) :
    ∃ bindings,
      Collection.ofProgram config.runtimeModule (.ofProgram program) program =
        (.ok (), collection config program) ∧
      Yields ((collection config program).imports.mapM (ImportRecord.binding config.runtimeModule))
        { resolution := config.resolution, names := (collection config program).names } bindings
        (resolver config program) ∧
      l = assemble config program (collection config program) bindings
        (resolver config program) := by
  have hrun : Yields (ofProgram config program) [] l (ofProgram config program).result.2 :=
    Prod.ext h rfl
  unfold ofProgram at hrun
  obtain ⟨_, log₁, -, hrun⟩ := Yields.bind_iff.1 hrun
  obtain ⟨_, log₂, hcollected, hrun⟩ := Yields.bind_iff.1 hrun
  obtain ⟨hcollected, -⟩ := Logged.yields_ofExcept.1 hcollected
  obtain ⟨_, log₃, -, hrun⟩ := Yields.bind_iff.1 hrun
  obtain ⟨bindings, log₄, hbound, hrun⟩ := Yields.bind_iff.1 hrun
  obtain ⟨hbound, -⟩ := Logged.yields_ofExcept.1 hbound
  obtain ⟨_, log₅, -, hrun⟩ := Yields.bind_iff.1 hrun
  obtain ⟨_, log₆, -, hrun⟩ := Yields.bind_iff.1 hrun
  obtain ⟨rfl, -⟩ := Yields.pure_iff.1 hrun
  refine ⟨bindings, ?_, ?_, rfl⟩
  · exact Prod.ext (Logged.ok_of_mapError hcollected) rfl
  · exact Prod.ext hbound rfl

/-- What the stages of a successful lowering did: `body` are the statements of the module, `found`
are the findings in each, and `bindings` are the statements that bind what it takes from others. -/
structure Stages (config : Config) (program : Node) (body : List Node)
    (found : List (List Finding)) (bindings : List Node) : Prop where
  form : program.form = .program body
  items : body.map (Node.collectedItems config.runtimeModule) = found.map (List.map Finding.item)
  complete : ∀ s ∈ body, s.isInspected config.runtimeModule = true → s.Complete
  findings : (collection config program).findings = found.flatten
  remains : (collection config program).body = (List.zipWith (fun s fs =>
    s.remainder config.runtimeModule (fs.map Finding.name)) body found).flatten
  collected : Allocated (.ofProgram program) (collection config program).names
    (found.flatten.filterMap Finding.newName?)
  resolution : (resolver config program).resolution = config.resolution
  registered : Allocated (collection config program).names (resolver config program).names
    ((resolver config program).modules.map ResolvedModule.ident)
  registration : ∀ m ∈ (resolver config program).modules,
    m.registration = m.key.registration m.ident
  bound : List.Forall₂ (Bound config.runtimeModule (resolver config program))
    (found.flatten.filterMap Finding.importRecord?) bindings
  keys : (resolver config program).HasResolved ((found.flatten.filterMap
    Finding.importRecord?).filterMap (ImportRecord.key? config.runtimeModule config.resolution))

/-- A successful lowering went through its stages. -/
theorem stages_of_ok {config : Config} {program : Node} {l : Lowering}
    (h : (ofProgram config program).result.1 = .ok l) :
    ∃ body found bindings, Stages config program body found bindings ∧
      l = assemble config program (collection config program) bindings
        (resolver config program) := by
  obtain ⟨bindings, hcollected, hbound, hl⟩ := ofProgram_ok h
  obtain ⟨body, found, hform, hbody⟩ := Collection.ofProgram_ok hcollected
  have hfindings : (collection config program).findings = found.flatten := hbody.findings
  have himports : (collection config program).imports =
      found.flatten.filterMap Finding.importRecord? := by
    unfold Collection.imports
    rw [hfindings]
  have hstart : Resolver.HasResolved
      ⟨config.resolution, (collection config program).names, []⟩ [] := rfl
  obtain ⟨new, hnew, hbindings, hkeys⟩ := ImportRecord.bindings_spec hstart hbound
  have hmodules : (resolver config program).modules = new := hnew.modules
  rw [himports] at hbindings hkeys
  refine ⟨body, found, bindings, ⟨hform, hbody.items, hbody.complete, hfindings, hbody.body,
    hbody.names, hnew.resolution, ?_, ?_, hbindings, hkeys⟩, hl⟩
  · rw [hmodules]
    exact hnew.names
  · intro m hm
    rw [hmodules] at hm
    exact ResolvedModule.registration_eq (hnew.keys m hm)

/-! ## Settled statements -/

/-- What makes a module available is settled. -/
theorem settled_registration {runtimeModule : Bool} {resolution : Resolution} {key : ModuleKey}
    {ident : Text} : ∀ s ∈ key.registration ident,
      Rewriting.Settled runtimeModule resolution s := by
  intro s hs
  unfold ModuleKey.registration at hs
  split at hs
  case isTrue =>
    unfold Registry.externalModule at hs
    rcases List.mem_cons.1 hs with rfl | hs
    · refine Rewriting.settled_importOf (Rewriting.settled_of_children ?_ rfl) _
      intro c hc
      rw [List.mem_singleton.1 hc]
      exact Rewriting.settled_identifier ident
    · rw [List.mem_singleton.1 hs]
      refine Rewriting.settled_asStatement_call _ ?_
      intro a ha
      rcases List.mem_cons.1 ha with rfl | ha
      · exact Rewriting.settled_literal _
      · rw [List.mem_singleton.1 ha]
        exact Rewriting.settled_identifier ident
  case isFalse =>
    rw [List.mem_singleton.1 hs]
    refine Rewriting.settled_constant _ (Rewriting.settled_call _ ?_)
    intro a ha
    rw [List.mem_singleton.1 ha]
    exact Rewriting.settled_literal _

/-- What is read from a module is settled. -/
theorem settled_value {runtimeModule : Bool} {resolution : Resolution} (record : ImportRecord)
    (ident : Text) : Rewriting.Settled runtimeModule resolution (record.value ident) := by
  have hident : Rewriting.Settled runtimeModule resolution (.identifier ident) :=
    Rewriting.settled_identifier ident
  unfold ImportRecord.value
  split
  case h_4 =>
    refine Rewriting.settled_callOf
      (Rewriting.settled_memberPath (Rewriting.settled_identifier _) _) rfl ?_
    intro a ha
    rw [List.mem_singleton.1 ha]
    exact hident
  all_goals exact Rewriting.settled_memberNamed hident _

/-- A statement that binds what is taken from another module is settled. -/
theorem settled_bound {runtimeModule : Bool} {resolution : Resolution} {r : Resolver}
    {record : ImportRecord} {s : Node} (h : Bound runtimeModule r record s) :
    Rewriting.Settled runtimeModule resolution s := by
  cases h with
  | read specifier m hsource hm hkey hs =>
    rw [hs]
    exact Rewriting.settled_constant _ (settled_value record m.ident)
  | imported hmode hhost hs =>
    rw [hs]
    unfold ImportRecord.importForm
    split <;> refine Rewriting.settled_importOf (Rewriting.settled_of_children ?_ rfl) _ <;>
      intro c hc
    case h_3 =>
      rcases List.mem_cons.1 hc with rfl | hc
      · exact Rewriting.settled_identifier _
      · rw [List.mem_singleton.1 hc]
        exact Rewriting.settled_identifier _
    all_goals
      rw [List.mem_singleton.1 hc]
      exact Rewriting.settled_identifier _

/-- Statements that bind what is taken from other modules are settled. -/
theorem settled_bindings {runtimeModule : Bool} {resolution : Resolution} {r : Resolver}
    {records : List ImportRecord} {bindings : List Node}
    (h : List.Forall₂ (Bound runtimeModule r) records bindings) :
    ∀ s ∈ bindings, Rewriting.Settled runtimeModule resolution s := by
  induction h with
  | nil =>
    intro s hs
    exact absurd hs List.not_mem_nil
  | cons hbound _ ih =>
    intro s hs
    rcases List.mem_cons.1 hs with rfl | hs
    · exact settled_bound hbound
    · exact ih s hs

/-! ## Texts -/

/-- Whether a text is lowered, and to what passes a test. -/
def lowersTo (config : Config) (source : Text) (test : Node → Lowering → Bool) : Bool :=
  match Node.ofSource source with
  | .error _ => false
  | .ok program =>
    match (ofProgram config program).result.1 with
    | .error _ => false
    | .ok l => test program l

/-- The program and the lowered module of a text that is lowered. -/
theorem exists_of_lowersTo {config : Config} {source : Text} {test : Node → Lowering → Bool}
    (h : lowersTo config source test = true) :
    ∃ program l, Node.ofSource source = .ok program ∧
      (ofProgram config program).result.1 = .ok l ∧ test program l = true := by
  unfold lowersTo at h
  split at h
  case h_1 => cases h
  case h_2 program hprogram =>
    split at h
    case h_1 => cases h
    case h_2 l hl => exact ⟨program, l, hprogram, hl, h⟩

/-! ## The lowered module -/

/-- The records of a module that is put together are those that were collected, and it has been
rewritten unless it publishes something. -/
theorem assemble_records (config : Config) (program : Node) (c : Collection) (bindings : List Node)
    (r : Resolver) :
    (assemble config program c bindings r).imports = c.imports ∧
      (assemble config program c bindings r).exports = c.exports ∧
      (assemble config program c bindings r).rewritten.isSome = c.exports.isEmpty := by
  unfold assemble
  dsimp only
  cases hexports : c.exports.isEmpty with
  | true => exact ⟨rfl, rfl, rfl⟩
  | false => exact ⟨rfl, rfl, rfl⟩

/-- The names that are taken when a module has been lowered. -/
def namesAfter (config : Config) (program : Node) (l : Lowering) : Names :=
  match l.rewritten with
  | some rewritten => rewritten.rewriting.names
  | none => (resolver config program).names

/-- The statements that make the modules available that a lowered module reads from. -/
def registrations (config : Config) (program : Node) : List Node :=
  (resolver config program).modules.flatMap fun m => m.key.registration m.ident

/-- What stands behind the bindings of a lowered module. A module that publishes something ends with
telling the registry so; what is left of any other one has been rewritten, with a declaration of its
object if there was need for it. -/
inductive Ending (config : Config) (program : Node) (exports : List ExportRecord)
    (remains : List Node) (object : Option Text) (rest : List Node) : Prop where
  | published (hexports : exports ≠ []) (hobject : object = none)
      (hrest : rest = remains ++ [ExportRecord.publication config.moduleId exports])
  | rewritten (boundary : Text) (hexports : exports = [])
      (hobject : ∀ x ∈ object, x = boundary)
      (hnew : boundary ∉ (resolver config program).names.taken)
      (hrest : ComesFrom (StemsFrom boundary) remains rest)

/-- The shape of a lowered module. -/
theorem Stages.lowered {config : Config} {program : Node} {body : List Node}
    {found : List (List Finding)} {bindings : List Node} {l : Lowering}
    (h : Stages config program body found bindings)
    (hl : l = assemble config program (collection config program) bindings
      (resolver config program)) :
    ∃ object rest,
      l.program = program.withForm (.program
        (object.toList.map (Registry.boundary · config.moduleId) ++
          (registrations config program ++ bindings) ++ rest)) ∧
      Allocated (resolver config program).names (namesAfter config program l) object.toList ∧
      Ending config program (collection config program).exports (collection config program).body
        object rest := by
  have hregistrations : (resolver config program).modules.flatMap ResolvedModule.registration =
      registrations config program :=
    List.flatMap_congr fun m hm => h.registration m hm
  unfold assemble at hl
  dsimp only at hl
  rw [hregistrations] at hl
  split at hl
  case isTrue hexports =>
    have hsettled : ∀ s ∈ registrations config program ++ bindings,
        Rewriting.Settled config.runtimeModule (resolver config program).resolution s := by
      intro s hs
      rcases List.mem_append.1 hs with hs | hs
      · obtain ⟨m, -, hsm⟩ := List.mem_flatMap.1 hs
        exact settled_registration s hsm
      · exact settled_bindings h.bound s hs
    have hform : (program.withForm (.program (registrations config program ++ bindings ++
        (collection config program).body))).form = .program (registrations config program ++
          bindings ++ (collection config program).body) := rfl
    obtain ⟨hobject, rest, hrest, hprogram⟩ := Rewritten.ofProgram_spec config.moduleId
      config.runtimeModule _ (resolver config program).names hform hsettled
    subst hl
    exact ⟨_, rest, hprogram, hobject.allocated,
      .rewritten _ (List.isEmpty_iff.1 hexports) hobject.boundary (Names.freshName_notMem _ _)
        hrest⟩
  case isFalse hexports =>
    subst hl
    refine ⟨none, _, ?_, .refl _, .published (fun hnil => hexports (by rw [hnil]; rfl)) rfl rfl⟩
    simp

end Lowering

end ModuleLowering
