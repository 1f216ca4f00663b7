import ModuleLowering.Proofs.Stages

/-!
# The two modes

A module that can be lowered on the registry can be lowered off it, with the same exports and the
same statement at the end. The runs of the collector in the two modes are followed side by side:
they meet the same forms and allocate the same names in the same order, and differ in what they keep
of a statement and in that imports are found on the registry only.
-/

set_option autoImplicit false

namespace ModuleLowering

namespace Finding

/-- Whether a finding publishes something. -/
def publishes (f : Finding) : Bool := f.exportRecord?.isSome

end Finding

/-- Off the registry the same names are taken, and everything is found that publishes something. -/
structure Counterpart (c d : Collection) : Prop where
  names : d.names = c.names
  findings : d.findings = c.findings.filter Finding.publishes

namespace Collecting

open Node

variable {α β γ δ : Type}

/-- Whenever the first work succeeds on the registry, so does the second off it, with values that
are related by `V`. -/
def Follows (m : Collecting α) (m' : Collecting β) (V : α → β → Prop) : Prop :=
  ∀ c d a c', Counterpart c d → Yields m c a c' →
    ∃ b d', Yields m' d b d' ∧ V a b ∧ Counterpart c' d'

/-- Work that goes the same way in both modes. -/
def Alike (m : Collecting α) : Prop := Follows m m Eq

namespace Follows

theorem pure {V : α → β → Prop} {a : α} {b : β} (h : V a b) :
    Follows (Pure.pure a) (Pure.pure b) V := by
  intro c d a' c' hcd hm
  obtain ⟨rfl, rfl⟩ := Yields.pure_iff.1 hm
  exact ⟨b, d, Yields.pure_iff.2 ⟨rfl, rfl⟩, h, hcd⟩

theorem throw {V : α → β → Prop} (e : CollectError) (m' : Collecting β) :
    Follows (throw e) m' V := by
  intro c d a c' _ hm
  exact absurd hm Yields.not_throw

theorem bind {V : α → β → Prop} {W : γ → δ → Prop} {m : Collecting α} {m' : Collecting β}
    {f : α → Collecting γ} {g : β → Collecting δ} (h : Follows m m' V)
    (k : ∀ a b, V a b → Follows (f a) (g b) W) : Follows (m >>= f) (m' >>= g) W := by
  intro c d x c'' hcd hm
  obtain ⟨a, c', ha, hx⟩ := Yields.bind_iff.1 hm
  obtain ⟨b, d', hb, hab, hmid⟩ := h c d a c' hcd ha
  obtain ⟨y, d'', hy, hxy, hend⟩ := k a b hab c' d' x c'' hmid hx
  exact ⟨y, d'', Yields.bind_iff.2 ⟨b, d', hb, hy⟩, hxy, hend⟩

theorem forM {f g : Node → Collecting PUnit} {ns : List Node}
    (h : ∀ n ∈ ns, Follows (f n) (g n) Eq) : Follows (ns.forM f) (ns.forM g) Eq := by
  induction ns with
  | nil => exact pure rfl
  | cons n ns ih =>
    have hrest := ih fun m hm => h m (List.mem_cons_of_mem n hm)
    exact bind (h n List.mem_cons_self) fun _ _ _ => hrest

theorem keep (statements statements' : List Node) :
    Follows (keep statements) (keep statements') Eq := by
  intro c d u c' hcd hm
  have hc := Yields.modify_iff.1 hm
  subst hc
  exact ⟨u, _, Yields.modify_iff.2 rfl, rfl, ⟨hcd.names, hcd.findings⟩⟩

end Follows

namespace Alike

theorem pure (a : α) : Alike (Pure.pure a) := Follows.pure rfl

theorem throw (e : CollectError) : Alike (throw e : Collecting α) := Follows.throw e _

theorem bind {W : γ → δ → Prop} {m : Collecting α} {f : α → Collecting γ} {g : α → Collecting δ}
    (h : Alike m) (k : ∀ a, Follows (f a) (g a) W) : Follows (m >>= f) (m >>= g) W := by
  refine Follows.bind h fun a b hab => ?_
  subst hab
  exact k a

theorem freshName (base : Text) : Alike (freshName base) := by
  intro c d x c' hcd hm
  obtain ⟨t, _, hget, hrest⟩ := Yields.bind_iff.1 hm
  obtain ⟨rfl, rfl⟩ := Yields.get_iff.1 hget
  obtain ⟨_, c'', hset, hpure⟩ := Yields.bind_iff.1 hrest
  have hc := Yields.set_iff.1 hset
  obtain ⟨rfl, rfl⟩ := Yields.pure_iff.1 hpure
  subst hc
  refine ⟨(d.names.fresh base).1, { d with names := (d.names.fresh base).2 }, rfl, ?_, ?_, ?_⟩
  · rw [hcd.names]
    rfl
  · show (d.names.fresh base).2 = _
    rw [hcd.names]
    rfl
  · exact hcd.findings

theorem add {f : Finding} (hf : f.publishes = true) : Alike (add f) := by
  intro c d u c' hcd hm
  have hc := Yields.modify_iff.1 hm
  subst hc
  refine ⟨u, _, Yields.modify_iff.2 rfl, rfl, hcd.names, ?_⟩
  show d.findings ++ [f] = (c.findings ++ [f]).filter Finding.publishes
  rw [hcd.findings, List.filter_append, List.filter_singleton, hf]
  rfl

/-! ## Parts of forms -/

theorem identifierName (part : Option Node) : Alike (identifierName part) := by
  unfold Collecting.identifierName
  split
  · exact pure _
  · exact throw _

theorem formName (role : NameRole) (part : Option Node) : Alike (formName role part) := by
  unfold Collecting.formName
  split
  · exact throw _
  · split
    · exact pure _
    · exact throw _

theorem sourceValue (source : Option Node) : Alike (sourceValue source) := by
  unfold Collecting.sourceValue
  split
  · exact pure _
  · exact throw _

theorem defaultDeclaration (declaration : Node) (id : Option Node) (base : Text) :
    Alike (defaultDeclaration declaration id base) := by
  unfold Collecting.defaultDeclaration
  split
  · refine bind (freshName base) fun name => ?_
    exact bind (add rfl) fun _ => pure _
  · refine bind (identifierName _) fun name => ?_
    exact bind (add rfl) fun _ => pure _

theorem exportSpecifier (specifier : Node) : Alike (exportSpecifier specifier) := by
  unfold Collecting.exportSpecifier
  refine bind (formName _ _) fun name => bind (formName _ _) fun exported => ?_
  by_cases hdefault : name = "default"
  · simp only [if_pos hdefault]
    exact bind (throw _) fun _ => add rfl
  · simp only [if_neg hdefault]
    exact add rfl

theorem reexportSpecifier (source : Value) (specifier : Node) :
    Alike (reexportSpecifier source specifier) := by
  unfold Collecting.reexportSpecifier
  refine bind (formName _ _) fun original => bind (formName _ _) fun exported => ?_
  exact bind (freshName _) fun name => add rfl

theorem exportedVariable (statement : Node) (kind : Text) (declarator : Node) :
    Alike (exportedVariable statement kind declarator) := by
  unfold Collecting.exportedVariable
  split
  · exact throw _
  · split
    · exact add rfl
    · exact throw _

theorem exportedDeclaration (statement declaration : Node) :
    Alike (exportedDeclaration statement declaration) := by
  unfold Collecting.exportedDeclaration
  split
  · exact Follows.forM fun d _ => exportedVariable statement _ d
  · exact bind (identifierName _) fun name => add rfl
  · exact bind (identifierName _) fun name => add rfl
  · exact throw _

end Alike

/-! ## Statements -/

/-- What is kept of a statement need not agree. -/
def Anything (_ _ : List Node) : Prop := True

theorem follows_defaultForm (statement : Node) (declaration : Option Node) :
    Follows (defaultForm true statement declaration) (defaultForm false statement declaration)
      Anything := by
  unfold defaultForm
  dsimp only
  split
  · exact Alike.bind (.defaultDeclaration _ _ _) fun d => .pure trivial
  · exact Alike.bind (.defaultDeclaration _ _ _) fun d => .pure trivial
  · refine Alike.bind (.freshName _) fun name => ?_
    exact Alike.bind (.add rfl) fun _ => .pure trivial

theorem follows_namedForm (statement : Node) (declaration : Option Node) (specifiers : List Node)
    (source : Option Node) :
    Follows (namedForm true statement declaration specifiers source)
      (namedForm false statement declaration specifiers source) Anything := by
  unfold namedForm
  split
  · exact Alike.bind (.exportedDeclaration _ _) fun _ => .pure trivial
  · refine Alike.bind (.sourceValue _) fun v => ?_
    exact .bind (.forM fun n _ => Alike.reexportSpecifier v n) fun _ _ _ => .pure trivial
  · exact .bind (.forM fun n _ => Alike.exportSpecifier n) fun _ _ _ => .pure trivial

theorem follows_wholeForm (statement : Node) (source exported : Option Node) :
    Follows (wholeForm true statement source exported) (wholeForm false statement source exported)
      Anything := by
  unfold wholeForm
  refine Alike.bind (.sourceValue _) fun v => ?_
  cases exported with
  | some e =>
    refine Alike.bind (.formName _ _) fun exported => Alike.bind (.freshName _) fun name => ?_
    exact Alike.bind (.add rfl) fun _ => .pure trivial
  | none =>
    refine Alike.bind (.freshName _) fun name => ?_
    exact Alike.bind (.add rfl) fun _ => .pure trivial

/-- Nothing that an import says publishes anything or goes by a new name. -/
theorem not_publishes_of_importItem? {v : Value} {specifier : Node} {f : Finding}
    (h : importItem? v specifier = some f.item) : f.publishes = false ∧ f.newName? = none := by
  obtain ⟨member, name, hitem⟩ := exists_imported h
  cases f <;> first | exact ⟨rfl, rfl⟩ | cases hitem

/-- Off the registry nothing is found in an import, and nothing that counts on it. -/
theorem follows_importForm (statement : Node) (specifiers : List Node) (source : Option Node) :
    Follows (importForm true statement specifiers source)
      (importForm false statement specifiers source) Anything := by
  intro c d kept c' hcd hm
  refine ⟨[statement], d, rfl, trivial, ?_⟩
  obtain ⟨v, e, hv, hrest⟩ := Yields.bind_iff.1 hm
  obtain ⟨-, rfl⟩ := yields_sourceValue hv
  obtain ⟨_, e', hspecifiers, hpure⟩ := Yields.bind_iff.1 hrest
  obtain ⟨-, rfl⟩ := Yields.pure_iff.1 hpure
  obtain ⟨fs, hfs, hitems, -⟩ := gathered_forM (fun _ _ _ => gathered_importSpecifier) hspecifiers
  have himported : ∀ f ∈ fs, f.publishes = false ∧ f.newName? = none := by
    intro f hf
    have hitem : f.item ∈ specifiers.filterMap (importItem? v) := by
      rw [hitems]
      exact List.mem_map_of_mem hf
    obtain ⟨specifier, -, hspecifier⟩ := List.mem_filterMap.1 hitem
    exact not_publishes_of_importItem? hspecifier
  have hnew : fs.filterMap Finding.newName? = [] :=
    List.filterMap_eq_nil_iff.2 fun f hf => (himported f hf).2
  have hpublished : fs.filter Finding.publishes = [] := by
    apply List.filter_eq_nil_iff.2
    intro f hf
    simp [(himported f hf).1]
  have htaken := hfs.names.taken
  rw [hnew] at htaken
  refine ⟨?_, ?_⟩
  · rw [hcd.names]
    exact congrArg Names.mk htaken.symm
  · rw [hfs.findings, List.filter_append, hpublished, List.append_nil, hcd.findings]

theorem follows_remains (s : Node) : Follows (remains true s) (remains false s) Anything := by
  unfold remains
  split
  · exact follows_importForm _ _ _
  · exact follows_defaultForm _ _
  · exact follows_namedForm _ _ _ _
  · exact follows_wholeForm _ _ _
  · exact .pure trivial

theorem follows_statement (s : Node) : Follows (statement true s) (statement false s) Eq := by
  unfold statement
  cases isIdle s with
  | true => exact .pure rfl
  | false => exact .bind (follows_remains s) fun kept kept' _ => .keep kept kept'

end Collecting

/-- A program that is collected on the registry is collected off it. -/
theorem Collection.counterpart_of_ok {names : Names} {program : Node} {c : Collection}
    (h : Collection.ofProgram true names program = (.ok (), c)) :
    ∃ d, Collection.ofProgram false names program = (.ok (), d) ∧ Counterpart c d := by
  unfold Collection.ofProgram at h ⊢
  dsimp only at h ⊢
  split at h
  case h_1 body hform =>
    have hinitial : Counterpart { names } { names } := ⟨rfl, rfl⟩
    obtain ⟨_, d, hd, -, hcounterpart⟩ :=
      Collecting.Follows.forM (fun s (_ : s ∈ body) => Collecting.follows_statement s)
        _ _ _ _ hinitial h
    exact ⟨d, hd, hcounterpart⟩
  case h_2 => exact (Yields.not_throw h).elim

namespace Counterpart

variable {c d : Collection}

theorem exports_eq (h : Counterpart c d) : d.exports = c.exports := by
  unfold Collection.exports
  rw [h.findings, List.filterMap_filter]
  refine List.filterMap_congr fun f _ => ?_
  unfold Finding.publishes
  cases f.exportRecord? <;> rfl

/-- Off the registry only what is passed on is taken from other modules. -/
theorem imports_eq (h : Counterpart c d) :
    d.imports = c.imports.filter ImportRecord.reexported := by
  unfold Collection.imports
  rw [h.findings, List.filterMap_filter, List.filter_filterMap]
  refine List.filterMap_congr fun f _ => ?_
  cases f <;> rfl

end Counterpart

/-! ## Bindings and modules -/

namespace ImportRecord

theorem text_of_bound {r : Resolver} {records : List ImportRecord} {bindings : List Node}
    (h : List.Forall₂ (Bound true r) records bindings) :
    ∀ record ∈ records, ∃ specifier, record.source = .text specifier := by
  induction h with
  | nil =>
    intro record hrecord
    exact absurd hrecord List.not_mem_nil
  | cons hbound _ ih =>
    intro record hrecord
    rcases List.mem_cons.1 hrecord with rfl | hrecord
    · cases hbound with
      | read specifier m hsource => exact ⟨specifier, hsource⟩
      | imported hmode => cases hmode
    · exact ih record hrecord

/-- Records with texts for sources can be bound in either mode. -/
theorem exists_bindings (runtimeModule : Bool) {records : List ImportRecord}
    (h : ∀ record ∈ records, ∃ specifier, record.source = .text specifier) (r : Resolver) :
    ∃ bindings r', Yields (records.mapM (binding runtimeModule)) r bindings r' := by
  induction records generalizing r with
  | nil => exact ⟨[], r, Yields.mapM_nil_iff.2 ⟨rfl, rfl⟩⟩
  | cons record records ih =>
    obtain ⟨specifier, hsource⟩ := h record List.mem_cons_self
    have hone : ∃ s t, Yields (record.binding runtimeModule) r s t := by
      unfold binding
      rw [hsource]
      by_cases hasked : (runtimeModule || r.resolution.isExternal specifier) = true
      · refine ⟨.constant record.name (some (record.value (r.resolve specifier).1.ident)),
          (r.resolve specifier).2, ?_⟩
        refine Yields.bind_iff.2 ⟨r, r, rfl, ?_⟩
        dsimp only
        rw [if_pos hasked]
        rfl
      · refine ⟨record.importForm, r, ?_⟩
        refine Yields.bind_iff.2 ⟨r, r, rfl, ?_⟩
        dsimp only
        rw [if_neg hasked]
        rfl
    obtain ⟨s, t, hs⟩ := hone
    obtain ⟨rest, r', hrest⟩ := ih (fun x hx => h x (List.mem_cons_of_mem record hx)) t
    exact ⟨s :: rest, r', Yields.mapM_cons_iff.2 ⟨s, t, rest, hs, hrest, rfl⟩⟩

end ImportRecord

namespace Lowering

theorem ofProgram_eq_ok {config : Config} {program : Node} {c : Collection} {bindings : List Node}
    {r : Resolver}
    (hcollected : Collection.ofProgram config.runtimeModule (.ofProgram program) program =
      (.ok (), c))
    (hbound : Yields (c.imports.mapM (ImportRecord.binding config.runtimeModule))
      { resolution := config.resolution, names := c.names } bindings r) :
    (ofProgram config program).result.1 = .ok (assemble config program c bindings r) := by
  unfold ofProgram
  rw [hcollected]
  dsimp only
  rw [show (ExceptT.run (c.imports.mapM (ImportRecord.binding config.runtimeModule))).run
    { resolution := config.resolution, names := c.names } = (.ok bindings, r) from hbound]
  rfl

/-- A module that publishes something ends with telling the registry so. -/
theorem getLast?_assemble (config : Config) (program : Node) {c : Collection} (bindings : List Node)
    (r : Resolver) (hexports : c.exports ≠ []) :
    (assemble config program c bindings r).program.statements.getLast? =
      some (ExportRecord.publication config.moduleId c.exports) := by
  unfold assemble
  dsimp only
  rw [if_neg (by simpa using hexports)]
  exact List.getLast?_concat

/-- What two lowerings of a module have in common, the first of which is on the registry: the path
that was taken, the exports, the imports that are passed on, and the statement that tells the
registry about the exports. -/
structure SamePublication (moduleId : Text) (l l' : Lowering) : Prop where
  path : l'.rewritten.isSome = l.rewritten.isSome
  exports : l'.exports = l.exports
  imports : l'.imports = l.imports.filter ImportRecord.reexported
  last : l.exports ≠ [] →
    l.program.statements.getLast? = some (ExportRecord.publication moduleId l.exports) ∧
      l'.program.statements.getLast? = l.program.statements.getLast?

/-- A module that is lowered on the registry is lowered off it, and publishes the same. -/
theorem ofProgram_off_registry {config : Config} {program : Node} {l : Lowering}
    (h : (ofProgram { config with runtimeModule := true } program).result.1 = .ok l) :
    ∃ l', (ofProgram { config with runtimeModule := false } program).result.1 = .ok l' ∧
      SamePublication config.moduleId l l' := by
  obtain ⟨bindings, hcollected, hbound, rfl⟩ := ofProgram_ok h
  obtain ⟨d, hd, hcounterpart⟩ := Collection.counterpart_of_ok hcollected
  have hexports := hcounterpart.exports_eq
  -- What was bound on the registry has texts for sources, and can be bound off it.
  have hstart : Resolver.HasResolved ⟨config.resolution,
      (collection { config with runtimeModule := true } program).names, []⟩ [] := rfl
  obtain ⟨_, -, hsources, -⟩ := ImportRecord.bindings_spec hstart hbound
  have htexts : ∀ record ∈ d.imports, ∃ specifier, record.source = .text specifier := by
    intro record hrecord
    rw [hcounterpart.imports_eq] at hrecord
    exact ImportRecord.text_of_bound hsources record (List.mem_of_mem_filter hrecord)
  obtain ⟨bindings', r, hbound'⟩ := ImportRecord.exists_bindings false htexts
    { resolution := config.resolution, names := d.names }
  have hlowered : (ofProgram { config with runtimeModule := false } program).result.1 =
      .ok (assemble { config with runtimeModule := false } program d bindings' r) :=
    ofProgram_eq_ok hd hbound'
  obtain ⟨himports, hpublished, hrewritten⟩ := assemble_records
    { config with runtimeModule := true } program
    (collection { config with runtimeModule := true } program) bindings
    (resolver { config with runtimeModule := true } program)
  obtain ⟨himports', hpublished', hrewritten'⟩ := assemble_records
    { config with runtimeModule := false } program d bindings' r
  refine ⟨_, hlowered, ?_, ?_, ?_, ?_⟩
  · rw [hrewritten, hrewritten', hexports]
  · rw [hpublished, hpublished', hexports]
  · rw [himports, himports', hcounterpart.imports_eq]
  · intro hsome
    rw [hpublished] at hsome
    have hsome' : d.exports ≠ [] := by rwa [hexports]
    rw [getLast?_assemble _ _ _ _ hsome, getLast?_assemble _ _ _ _ hsome', hpublished, hexports]
    exact ⟨rfl, rfl⟩

/-- A module that imports, passes on and publishes does so in both modes. -/
theorem same_publication_of_mixed_module :
    ∃ (config : Config) (source : Text) (program : Node) (l l' : Lowering),
      Node.ofSource source = .ok program ∧
      (ofProgram { config with runtimeModule := true } program).result.1 = .ok l ∧
      (ofProgram { config with runtimeModule := false } program).result.1 = .ok l' ∧
      l.exports.length = 5 ∧ SamePublication config.moduleId l l' := by
  obtain ⟨config, hconfig⟩ : ∃ config : Config, config =
      { moduleId := "main", external := some ⟨"y", [.literal 'y'], [], []⟩ } := ⟨_, rfl⟩
  have htest : lowersTo { config with runtimeModule := true }
      ("import a, * as b from 'x'; export default a; export \x7bb as c, d as e\x7d from 'y';" ++
        "export * from 'x'; export let f = b;")
      (fun _ l => l.exports.length = 5) = true := by
    rw [hconfig]
    decide +kernel
  obtain ⟨program, l, hprogram, hl, hlength⟩ := exists_of_lowersTo htest
  obtain ⟨l', hl', hsame⟩ := ofProgram_off_registry hl
  exact ⟨config, _, program, l, l', hprogram, hl, hl', of_decide_eq_true hlength, hsame⟩

end Lowering

end ModuleLowering
