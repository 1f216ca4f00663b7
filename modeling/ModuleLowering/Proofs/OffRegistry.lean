import ModuleLowering.Proofs.Folds
import ModuleLowering.Proofs.ItemNames
import ModuleLowering.Proofs.OnRegistry

/-!
# Lowering off the registry

Off the registry the statements of a module stay as they are and in order, but for idle ones, which
go, and for defaults without a name, which get one. In front of them is bound what the module passes
on: members of a module that the host loads are read from that module, which is registered once, and
all others are imported from the specifier as it stands.
-/

set_option autoImplicit false

namespace ModuleLowering

open Node

/-! ## What stays of a statement -/

/-- Whether a statement exports a default without a name. -/
def Node.isUnnamedDefault (s : Node) : Bool :=
  match s.form with
  | .exportDefaultDeclaration declaration => (defaultName? declaration).isNone
  | _ => false

/-- Whether a default is the declaration of a function or class. -/
def Node.isDeclaration (declaration : Option Node) : Bool :=
  match declaration.map form with
  | some (.functionDeclaration ..) | some (.classDeclaration ..) => true
  | _ => false

/-- What stands for a statement off the registry, and the name that it has been given for a default:
nothing for an idle one, and the statement itself unless it exports a default without a name. A
function or class is declared under the new name then, and the value of anything else is bound to
it. -/
inductive Conserved (s : Node) : Option Text → List Node → Prop
  | idle (hidle : Collecting.isIdle s = true) : Conserved s none []
  | kept (hidle : Collecting.isIdle s = false) (hnamed : s.isUnnamedDefault = false) :
    Conserved s none [s]
  | function {d : Node} {params : List Node} {body : Option Node} {isAsync generator : Bool}
    (name : Text) (hs : s.form = .exportDefaultDeclaration (some d))
    (hd : d.form = .functionDeclaration none params body isAsync generator) :
    Conserved s (some name) [s.withForm (.exportDefaultDeclaration (some (d.withForm
      (.functionDeclaration (some (identifier name)) params body isAsync generator))))]
  | class {d : Node} {superclass : Option Node} {body : List Node}
    (name : Text) (hs : s.form = .exportDefaultDeclaration (some d))
    (hd : d.form = .classDeclaration none superclass body) :
    Conserved s (some name) [s.withForm (.exportDefaultDeclaration (some (d.withForm
      (.classDeclaration (some (identifier name)) superclass body))))]
  | expression {declaration : Option Node}
    (name : Text) (hs : s.form = .exportDefaultDeclaration declaration)
    (hdeclaration : isDeclaration declaration = false) :
    Conserved s (some name) [mk s.loc (constant name declaration).form,
      s.withForm (.exportDefaultDeclaration (some (identifier name)))]

namespace Node

/-- What is left of the export of a default, and the name that it has been given. -/
theorem conserved_default {s : Node} {declaration : Option Node} {f : Finding}
    (hform : s.form = .exportDefaultDeclaration declaration)
    (hitem : f.item = .published (defaultName? declaration) "default")
    (hnamed : ∀ id ∈ defaultId? declaration, id.name?.isSome) :
    ∃ given, given.toList = f.defaultName?.toList ∧
      Conserved s given (defaultRemainder false s declaration f.name) := by
  have hidle : Collecting.isIdle s = false := by
    rw [Collecting.isIdle, hform]
  -- A declaration that has a part to name it is named by it, and stays.
  have hstays : ∀ (d n : Node), declaration = some d → defaultId? declaration = some n →
      defaultName? declaration = n.name? → ∃ given, given.toList = f.defaultName?.toList ∧
        Conserved s given [s.withForm (.exportDefaultDeclaration
          (some (d.withName (some n) f.name)))] := by
    rintro d n rfl hid hname
    have hsome := hnamed n (by rw [hid]; rfl)
    have hwith : d.withName (some n) f.name = d := if_pos hsome
    have hnone : f.item.isUnnamed = false := by
      rw [hitem, hname]
      obtain ⟨x, hx⟩ := Option.isSome_iff_exists.1 hsome
      rw [hx]
      rfl
    refine ⟨none, ?_, ?_⟩
    · rw [Finding.defaultName?, hnone]
      rfl
    · rw [hwith, ← hform, withForm_self]
      refine .kept hidle ?_
      rw [isUnnamedDefault, hform]
      show (defaultName? (some d)).isNone = false
      rw [hname]
      simpa using hsome
  have hgiven : ∀ name?, defaultName? declaration = name? →
      f.defaultName? = if name?.isNone then some f.name else none := by
    rintro name? rfl
    rw [Finding.defaultName?, hitem]
    cases defaultName? declaration <;> rfl
  unfold defaultRemainder
  dsimp only
  split
  case h_1 d id params body isAsync generator hd =>
    have hname := defaultName?_function hd
    cases id with
    | none =>
      have hwith : d.withName none f.name = d.withForm (.functionDeclaration
          (some (identifier f.name)) params body isAsync generator) := by
        show Collecting.withId d _ = _
        rw [Collecting.withId, show d.form = _ from Option.some.inj hd]
      rw [hwith]
      exact ⟨some f.name, congrArg _ (hgiven none hname).symm,
        .function f.name hform (Option.some.inj hd)⟩
    | some n => exact hstays d n rfl (by rw [defaultId?, hd]) hname
  case h_2 d id superclass body hd =>
    have hname := defaultName?_class hd
    cases id with
    | none =>
      have hwith : d.withName none f.name = d.withForm (.classDeclaration
          (some (identifier f.name)) superclass body) := by
        show Collecting.withId d _ = _
        rw [Collecting.withId, show d.form = _ from Option.some.inj hd]
      rw [hwith]
      exact ⟨some f.name, congrArg _ (hgiven none hname).symm,
        .class f.name hform (Option.some.inj hd)⟩
    | some n => exact hstays d n rfl (by rw [defaultId?, hd]) hname
  case h_3 hfunction hclass =>
    have hname := defaultName?_eq_none hfunction hclass
    refine ⟨some f.name, congrArg _ (hgiven none hname).symm, .expression f.name hform ?_⟩
    unfold isDeclaration
    split
    case h_1 hd =>
      obtain ⟨d, rfl, -⟩ := Option.map_eq_some_iff.1 hd
      exact (hfunction _ _ _ _ _ _ rfl hd).elim
    case h_2 hd =>
      obtain ⟨d, rfl, -⟩ := Option.map_eq_some_iff.1 hd
      exact (hclass _ _ _ _ rfl hd).elim
    case h_3 => rfl

/-- What is left of a statement is what stands for it, and it names a default if it does not. -/
theorem conserved_remainder {s : Node} {fs : List Finding}
    (hitems : s.collectedItems false = fs.map Finding.item)
    (hcomplete : s.isInspected false = true → s.Complete) :
    ∃ given, given.toList = fs.filterMap Finding.defaultName? ∧
      Conserved s given (s.remainder false (fs.map Finding.name)) := by
  by_cases hdefault : ∃ declaration, s.form = .exportDefaultDeclaration declaration
  · obtain ⟨declaration, hform⟩ := hdefault
    have hsingle : fs.map Finding.item = [.published (defaultName? declaration) "default"] := by
      rw [← hitems, collectedItems_default _ hform]
    obtain ⟨f, rfl, hitem⟩ := List.map_eq_singleton_iff.1 hsingle
    have hidle : Collecting.isIdle s = false := by
      rw [Collecting.isIdle, hform]
    have hinspected : s.isInspected false = true := by
      rw [isInspected, hform]
    rw [remainder, hidle, hform]
    obtain ⟨given, hgiven, hconserved⟩ :=
      conserved_default hform hitem ((hcomplete hinspected).named declaration hform)
    refine ⟨given, ?_, hconserved⟩
    rw [hgiven]
    cases hname : f.defaultName? <;> simp [hname]
  · have hform : ∀ declaration, s.form ≠ .exportDefaultDeclaration declaration :=
      fun declaration hd => hdefault ⟨declaration, hd⟩
    have hnone : fs.filterMap Finding.defaultName? = [] := by
      refine List.filterMap_eq_nil_iff.2 fun f hf => ?_
      have hitem : f.item ∈ s.items := by
        refine mem_items_of_mem_collectedItems false ?_
        rw [hitems]
        exact List.mem_map_of_mem hf
      unfold Finding.defaultName?
      rw [if_neg fun hunnamed => hdefault ((wordsIn_items hitem).2 hunnamed)]
    refine ⟨none, hnone.symm, ?_⟩
    cases hidle : Collecting.isIdle s with
    | true =>
      rw [remainder, hidle]
      exact .idle hidle
    | false =>
      have hrest : s.remainder false (fs.map Finding.name) = [s] := by
        rw [remainder, if_neg (Bool.eq_false_iff.1 hidle)]
        split
        case h_1 declaration hd => exact absurd hd (hform declaration)
        all_goals rfl
      have hnamed : s.isUnnamedDefault = false := by
        unfold isUnnamedDefault
        split
        case h_1 declaration hd => exact absurd hd (hform declaration)
        case h_2 => rfl
      rw [hrest]
      exact .kept hidle hnamed

/-- What is left of a module stands for its statements, one after the other. -/
theorem conserved_remainders {body : List Node} {found : List (List Finding)}
    (hitems : body.map (collectedItems false) = found.map (List.map Finding.item))
    (hcomplete : ∀ s ∈ body, s.isInspected false = true → s.Complete) :
    ∃ chunks : List (Option Text × List Node),
      List.Forall₂ (fun s chunk => Conserved s chunk.1 chunk.2) body chunks ∧
      chunks.map Prod.snd =
        List.zipWith (fun s fs => s.remainder false (fs.map Finding.name)) body found ∧
      chunks.filterMap Prod.fst = found.flatten.filterMap Finding.defaultName? := by
  induction body generalizing found with
  | nil =>
    have hfound : found = [] := List.map_eq_nil_iff.1 hitems.symm
    subst hfound
    exact ⟨[], .nil, rfl, rfl⟩
  | cons s body ih =>
    cases found with
    | nil => exact absurd hitems (by simp)
    | cons fs found =>
      rw [List.map_cons, List.map_cons, List.cons.injEq] at hitems
      obtain ⟨given, hgiven, hconserved⟩ :=
        conserved_remainder hitems.1 (hcomplete s List.mem_cons_self)
      obtain ⟨chunks, hchunks, hrest, hnames⟩ :=
        ih hitems.2 fun t ht => hcomplete t (List.mem_cons_of_mem _ ht)
      refine ⟨(given, s.remainder false (fs.map Finding.name)) :: chunks,
        .cons hconserved hchunks, ?_, ?_⟩
      · rw [List.map_cons, hrest, List.zipWith_cons_cons]
      · rw [List.flatten_cons, List.filterMap_append, ← hgiven, ← hnames]
        cases given <;> rfl

end Node

/-! ## What is passed on -/

/-- The import of a member of a module under a name. -/
def Member.importForm (name : Text) (source : Value) : Member → Node
  | .named m => if m = "default" then defaultImport name source else namedImport name m source
  | .whole => wholeImport name source

/-- The specifier of the module that an item takes something from, if the host loads it. -/
def ModuleItem.externalSpecifier? (resolution : Resolution) (item : ModuleItem) : Option Text :=
  match item.taken? with
  | some (_, .text specifier) =>
    if resolution.isExternal specifier then some specifier else none
  | _ => none

/-- A statement binds what an item passes on: by reading it from the registered module of its
specifier if the host loads that, and otherwise by an import from the specifier as it stands. -/
inductive PassedOn (resolution : Resolution) (registered : List (Text × Text)) (n : NamedItem)
    (s : Node) : Prop
  | external (member : Member) (specifier ident : Text)
    (htaken : n.item.taken? = some (member, .text specifier))
    (hexternal : resolution.isExternal specifier = true)
    (hregistered : (specifier, ident) ∈ registered)
    (hs : s = Node.constant n.name (some (member.read ident)))
  | imported (member : Member) (source : Value) (htaken : n.item.taken? = some (member, source))
    (hlocal : ∀ specifier, source = .text specifier → resolution.isExternal specifier = false)
    (hs : s = member.importForm n.name source)

namespace Node

/-- Whether a statement is an import. -/
def isImport (s : Node) : Bool :=
  match s.form with
  | .importDeclaration .. => true
  | _ => false

/-- Imports say what they import, and no other statement does. -/
theorem isImport_of_mem_items {s : Node} {item : ModuleItem} (h : item ∈ s.items) :
    if s.isImport then item.isPassed = false else item.isTaken = item.isPassed := by
  unfold items at h
  unfold isImport
  split at h
  case h_1 specifiers source hform =>
    rw [hform]
    obtain ⟨v, -, hitem⟩ := mem_elim_literalValue? h
    obtain ⟨c, -, hc⟩ := List.mem_filterMap.1 hitem
    obtain ⟨member, name, rfl⟩ := exists_imported hc
    rfl
  case h_2 declaration hform =>
    rw [hform, List.mem_singleton.1 h]
    rfl
  case h_3 declaration _ _ hform =>
    rw [hform]
    obtain ⟨name, rfl⟩ := exists_declaredItem h
    rfl
  case h_4 specifiers source hform =>
    rw [hform]
    obtain ⟨v, -, hitem⟩ := mem_elim_literalValue? h
    obtain ⟨c, -, hc⟩ := List.mem_filterMap.1 hitem
    obtain ⟨member, exported, rfl⟩ := exists_reexported hc
    rfl
  case h_5 specifiers hform =>
    rw [hform]
    obtain ⟨c, -, hc⟩ := List.mem_filterMap.1 h
    obtain ⟨name, exported, rfl⟩ := exists_published hc
    rfl
  case h_6 source hform =>
    rw [hform]
    obtain ⟨v, -, rfl⟩ := Option.map_eq_some_iff.1 (Option.mem_toList.1 h)
    rfl
  case h_7 source exported hform =>
    rw [hform]
    obtain ⟨v, -, hv⟩ := Option.bind_eq_some_iff.1 (Option.mem_toList.1 h)
    obtain ⟨x, -, rfl⟩ := Option.map_eq_some_iff.1 hv
    rfl
  case h_8 => exact absurd h List.not_mem_nil

theorem collectedItems_false (s : Node) :
    s.collectedItems false = if s.isImport then [] else s.items := by
  obtain ⟨loc, form⟩ := s
  cases form <;> rfl

theorem isTaken_of_mem_collectedItems {s : Node} {item : ModuleItem}
    (h : item ∈ s.collectedItems false) : item.isTaken = item.isPassed := by
  rw [collectedItems_false] at h
  cases himport : s.isImport with
  | true =>
    rw [himport] at h
    exact absurd h List.not_mem_nil
  | false =>
    rw [himport] at h
    have hitem := isImport_of_mem_items h
    rwa [himport] at hitem

/-- Off the registry all that a statement passes on is collected. -/
theorem filter_collectedItems (s : Node) :
    (s.collectedItems false).filter ModuleItem.isPassed = s.items.filter ModuleItem.isPassed := by
  rw [collectedItems_false]
  cases himport : s.isImport with
  | false => rfl
  | true =>
    refine (List.filter_eq_nil_iff.2 fun item hitem => ?_).symm
    have hpassed := isImport_of_mem_items hitem
    rw [himport, if_pos rfl] at hpassed
    rw [hpassed]
    exact Bool.false_ne_true

end Node

/-! ## Findings and records -/

theorem ModuleItem.externalSpecifier?_eq_none {item : ModuleItem} (h : item.isTaken = false)
    (resolution : Resolution) : item.externalSpecifier? resolution = none := by
  unfold externalSpecifier?
  rw [show item.taken? = none by simpa [isTaken] using h]

namespace Finding

theorem importForm_eq {f : Finding} {r : ImportRecord} (h : f.importRecord? = some r)
    (hpassed : f.item.isPassed = true) : r.importForm = r.member.importForm f.name r.source := by
  cases f with
  | reexportedName original exported source name =>
    cases h
    by_cases horiginal : original = "default" <;>
      simp [ImportRecord.importForm, ImportRecord.member, ImportRecord.importedName,
        Member.importForm, Finding.name, horiginal]
  | reexportedWhole | reexportedAll =>
    cases h
    rfl
  | _ => cases hpassed

theorem isPassed_eq_reexported {f : Finding} {r : ImportRecord} (h : f.importRecord? = some r) :
    f.item.isPassed = r.reexported := by
  cases f <;> cases h <;> rfl

/-- Off the registry a record asks the registry for what its finding takes from an external module.
-/
theorem key?_eq_external (f : Finding) (resolution : Resolution) :
    f.importRecord?.bind (ImportRecord.key? false resolution) =
      (f.item.externalSpecifier? resolution).map (ModuleKey.mk true) := by
  unfold ModuleItem.externalSpecifier?
  rw [taken?_eq]
  cases f.importRecord? with
  | none => rfl
  | some r =>
    rw [Option.bind_some, Option.map_some]
    unfold ImportRecord.key?
    cases r.source with
    | text specifier =>
      cases hexternal : resolution.isExternal specifier <;>
        simp [Resolution.key, Resolution.actualPath, hexternal]
    | _ => rfl

/-- The items that findings pass on, with the names that they go by. -/
def passed (fs : List Finding) : List NamedItem := (fs.map named).filter fun n => n.item.isPassed

theorem passed_items (fs : List Finding) :
    (passed fs).map NamedItem.item = (fs.map item).filter ModuleItem.isPassed := by
  rw [passed, List.filter_map, List.filter_map, List.map_map]
  rfl

theorem passed_names (fs : List Finding) :
    (passed fs).map NamedItem.name = fs.filterMap passedName? := by
  rw [passed, ← List.filterMap_eq_map, List.filterMap_filter, List.filterMap_map]
  exact List.filterMap_congr fun f _ => rfl

theorem passed_eq_taken {fs : List Finding} (h : ∀ f ∈ fs, f.item.isTaken = f.item.isPassed) :
    passed fs = (fs.map named).filter fun n => n.item.isTaken := by
  refine List.filter_congr fun n hn => ?_
  obtain ⟨f, hf, rfl⟩ := List.mem_map.1 hn
  exact (h f hf).symm

end Finding

/-! ## The module -/

/-- Lists whose entries differ have no more repetitions than what the entries are made of. -/
theorem eraseDups_map {α β : Type} [BEq α] [LawfulBEq α] [BEq β] [LawfulBEq β] {f : α → β}
    (hf : Function.Injective f) (l : List α) : (l.map f).eraseDups = l.eraseDups.map f := by
  induction l using List.reverseRecOn with
  | nil => rfl
  | append_singleton l a ih =>
    have hmem : f a ∈ l.map f ↔ a ∈ l := List.mem_map_of_injective hf
    rw [List.map_append, List.eraseDups_append, List.eraseDups_append, List.map_append, ih]
    by_cases ha : a ∈ l <;> simp [List.removeAll, List.eraseDups_cons, ha, hf.eq_iff]

/-- What a module is off the registry. For each statement `chunks` holds what stands for it, with
the name that a default has been given; `passed` are the items that are passed on, with the names
that they go by; `bindings` are the statements that bind them; and `registered` are the specifiers
of the modules that the host loads with the identifiers that hold these, each once and in the order
of the first items that need them. -/
structure OffRegistry (config : Config) (program : Node) (chunks : List (Option Text × List Node))
    (passed : List NamedItem) (registered : List (Text × Text)) (bindings : List Node) : Prop where
  complete : ∀ s ∈ program.statements, s.isInspected false = true → s.Complete
  conserved : List.Forall₂ (fun s chunk => Conserved s chunk.1 chunk.2) program.statements chunks
  items : passed.map NamedItem.item =
    (program.statements.flatMap Node.items).filter ModuleItem.isPassed
  bindings : List.Forall₂ (PassedOn config.resolution registered) passed bindings
  specifiers : registered.map Prod.fst =
    (passed.filterMap fun n => n.item.externalSpecifier? config.resolution).eraseDups
  new : ∀ x ∈ passed.map NamedItem.name ++ chunks.filterMap Prod.fst ++ registered.map Prod.snd,
    x ∉ program.names
  nodup : (passed.map NamedItem.name ++ chunks.filterMap Prod.fst ++
    registered.map Prod.snd).Nodup

namespace Lowering

namespace Stages

variable {config : Config} {program : Node} {body : List Node} {found : List (List Finding)}
  {bindings : List Node}

/-- The modules that have been resolved, by the paths that they are asked for. -/
def registeredPaths (config : Config) (program : Node) : List (Text × Text) :=
  (resolver config program).modules.map fun m => (m.key.path, m.ident)

theorem isTaken_of_mem_found (h : Stages config program body found bindings)
    (hmode : config.runtimeModule = false) {f : Finding} (hf : f ∈ found.flatten) :
    f.item.isTaken = f.item.isPassed := by
  obtain ⟨fs, hfs, hf⟩ := List.mem_flatten.1 hf
  have hitems : fs.map Finding.item ∈ body.map (Node.collectedItems config.runtimeModule) := by
    rw [h.items]
    exact List.mem_map_of_mem hfs
  rw [hmode] at hitems
  obtain ⟨s, -, hs⟩ := List.mem_map.1 hitems
  refine Node.isTaken_of_mem_collectedItems (s := s) ?_
  rw [hs]
  exact List.mem_map_of_mem hf

/-- The keys that are asked for off the registry are those of external modules. -/
theorem keys_eq_external (h : Stages config program body found bindings)
    (hmode : config.runtimeModule = false) :
    (resolver config program).modules.map ResolvedModule.key =
      (found.flatten.filterMap fun f =>
        f.item.externalSpecifier? config.resolution).eraseDups.map (ModuleKey.mk true) := by
  have hkeys := h.keys
  unfold Resolver.HasResolved at hkeys
  rw [hmode, List.filterMap_filterMap] at hkeys
  have hinjective : Function.Injective (ModuleKey.mk true) := by
    rintro a b hab
    cases hab
    rfl
  rw [hkeys, ← eraseDups_map hinjective, List.map_filterMap]
  exact congrArg List.eraseDups
    (List.filterMap_congr fun f _ => f.key?_eq_external config.resolution)

theorem isExternal_of_mem_modules (h : Stages config program body found bindings)
    (hmode : config.runtimeModule = false) {m : ResolvedModule}
    (hm : m ∈ (resolver config program).modules) : m.key.isExternal = true := by
  have hkey : m.key ∈ (resolver config program).modules.map ResolvedModule.key :=
    List.mem_map_of_mem hm
  rw [h.keys_eq_external hmode] at hkey
  obtain ⟨specifier, -, hspecifier⟩ := List.mem_map.1 hkey
  rw [← hspecifier]

/-- Off the registry the modules that the host loads are made available, and no others. -/
theorem registrations_eq_external (h : Stages config program body found bindings)
    (hmode : config.runtimeModule = false) :
    registrations config program =
      (registeredPaths config program).flatMap fun m => Registry.externalModule m.2 m.1 := by
  unfold registrations registeredPaths
  rw [List.flatMap_map]
  refine List.flatMap_congr fun m hm => ?_
  rw [ModuleKey.registration, if_pos (h.isExternal_of_mem_modules hmode hm)]

theorem passedOn_of_bound (h : Stages config program body found bindings)
    (hmode : config.runtimeModule = false) {f : Finding} {r : ImportRecord} {s : Node}
    (hrecord : f.importRecord? = some r) (hpassed : f.item.isPassed = true)
    (hbound : Bound config.runtimeModule (resolver config program) r s) :
    PassedOn config.resolution (registeredPaths config program) f.named s := by
  have htaken : f.named.item.taken? = some (r.member, r.source) := by
    show f.item.taken? = _
    rw [Finding.taken?_eq, hrecord, Option.map_some]
  have hname := Finding.importRecord?_name hrecord
  cases hbound with
  | read specifier m hsource hm hkey hs =>
    rw [hsource] at htaken
    rw [h.resolution] at hkey
    have hexternal : config.resolution.isExternal specifier = true := by
      have hmodule := h.isExternal_of_mem_modules hmode hm
      rwa [hkey] at hmodule
    have hpath : m.key.path = specifier := by
      rw [hkey]
      exact if_pos hexternal
    refine .external r.member specifier m.ident htaken hexternal ?_ ?_
    · rw [← hpath]
      exact List.mem_map_of_mem hm
    · rw [hs, r.value_eq_read, hname]
      rfl
  | imported _ hhost hs =>
    rw [h.resolution] at hhost
    refine .imported r.member r.source htaken hhost ?_
    rw [hs, Finding.importForm_eq hrecord hpassed]
    rfl

/-- What is bound off the registry is what the module passes on. -/
theorem passedOn (h : Stages config program body found bindings)
    (hmode : config.runtimeModule = false) :
    List.Forall₂ (PassedOn config.resolution (registeredPaths config program))
      (Finding.passed found.flatten) bindings := by
  rw [Finding.passed_eq_taken fun f hf => h.isTaken_of_mem_found hmode hf]
  -- Imports are not collected here, so every record is of something that is passed on.
  have hreexported : ∀ r ∈ found.flatten.filterMap Finding.importRecord?, r.reexported = true := by
    intro r hr
    obtain ⟨f, hf, hrecord⟩ := List.mem_filterMap.1 hr
    have htaken : f.item.isTaken = true := by
      rw [ModuleItem.isTaken, Finding.taken?_eq, hrecord]
      rfl
    rw [← Finding.isPassed_eq_reexported hrecord, ← h.isTaken_of_mem_found hmode hf, htaken]
  refine Finding.forall₂_named ?_ ((List.forall₂_and_left _ _).2 ⟨hreexported, h.bound⟩)
  rintro f r s hrecord ⟨hr, hbound⟩
  rw [← Finding.isPassed_eq_reexported hrecord] at hr
  exact h.passedOn_of_bound hmode hrecord hr hbound

/-- The modules that have been resolved off the registry are those of what is passed on. -/
theorem registered_specifiers (h : Stages config program body found bindings)
    (hmode : config.runtimeModule = false) :
    (registeredPaths config program).map Prod.fst = ((Finding.passed found.flatten).filterMap
      fun n => n.item.externalSpecifier? config.resolution).eraseDups := by
  have hpaths := congrArg (List.map ModuleKey.path) (h.keys_eq_external hmode)
  rw [List.map_map, List.map_map, show ModuleKey.path ∘ ModuleKey.mk true = id from rfl,
    List.map_id] at hpaths
  rw [registeredPaths, List.map_map]
  refine hpaths.trans (congrArg List.eraseDups ?_)
  rw [Finding.passed_eq_taken fun f hf => h.isTaken_of_mem_found hmode hf, List.filterMap_filter,
    List.filterMap_map]
  refine List.filterMap_congr fun f _ => ?_
  show _ = if f.item.isTaken then f.item.externalSpecifier? config.resolution else none
  cases htaken : f.item.isTaken with
  | true => rfl
  | false => exact ModuleItem.externalSpecifier?_eq_none htaken config.resolution

/-- The findings of a module off the registry are what stays of it and what it passes on. -/
theorem offRegistry (h : Stages config program body found bindings)
    (hmode : config.runtimeModule = false) :
    ∃ chunks passed,
      OffRegistry config program chunks passed (registeredPaths config program) bindings ∧
      (chunks.map Prod.snd).flatten = (collection config program).body := by
  have hitems := h.items
  have hcomplete := h.complete
  rw [hmode] at hitems hcomplete
  obtain ⟨chunks, hconserved, hrest, hgiven⟩ := Node.conserved_remainders hitems hcomplete
  have hstatements := h.statements_eq
  have hnames := h.collected.trans h.registered
  -- Names are given as statements are collected, where defaults stand among what is passed on.
  have hperm : ((Finding.passed found.flatten).map NamedItem.name ++ chunks.filterMap Prod.fst ++
      (registeredPaths config program).map Prod.snd).Perm
      (found.flatten.filterMap Finding.newName? ++
        (resolver config program).modules.map ResolvedModule.ident) := by
    have hidents : (registeredPaths config program).map Prod.snd =
        (resolver config program).modules.map ResolvedModule.ident := List.map_map
    rw [hidents, hgiven, Finding.passed_names]
    exact (Finding.newNames_perm found.flatten).symm.append_right _
  refine ⟨chunks, Finding.passed found.flatten, ⟨?_, ?_, ?_, h.passedOn hmode,
    h.registered_specifiers hmode, fun x hx => hnames.notMem x (hperm.mem_iff.1 hx),
    hperm.nodup_iff.2 hnames.nodup⟩, ?_⟩
  · rw [hstatements]
    exact hcomplete
  · rw [hstatements]
    exact hconserved
  · rw [Finding.passed_items, hstatements, List.map_flatten, ← hitems, ← List.flatMap_def,
      List.filter_flatMap, List.filter_flatMap]
    exact List.flatMap_congr fun s _ => s.filter_collectedItems
  · rw [hrest, h.remains, hmode]

end Stages

/-- A module that publishes something is conserved off the registry. It consists of the
registrations of what it passes on from modules that the host loads, the bindings of what it passes
on, what stands for its statements one after the other, and the publication. -/
theorem ofProgram_conserves {config : Config} {program : Node} {l : Lowering}
    (hmode : config.runtimeModule = false) (h : (ofProgram config program).result.1 = .ok l)
    (hexports : l.exports ≠ []) :
    ∃ chunks passed registered bindings,
      OffRegistry config program chunks passed registered bindings ∧
      l.program = program.withForm (.program
        (registered.flatMap (fun m => Registry.externalModule m.2 m.1) ++ bindings ++
          (chunks.map Prod.snd).flatten ++
          [ExportRecord.publication config.moduleId l.exports])) := by
  obtain ⟨body, found, bindings, hstages, hl⟩ := stages_of_ok h
  obtain ⟨object, rest, hprogram, -, hending⟩ := hstages.lowered hl
  obtain ⟨chunks, passed, hoff, hbody⟩ := hstages.offRegistry hmode
  have hsame : l.exports = (collection config program).exports := by
    rw [hl]
    exact (assemble_records _ _ _ _ _).2.1
  cases hending with
  | rewritten boundary hnone => exact absurd (hsame.trans hnone) hexports
  | published _ hobject hrest =>
    refine ⟨chunks, passed, _, bindings, hoff, ?_⟩
    rw [hprogram, hobject, hrest, hbody, hsame, ← hstages.registrations_eq_external hmode]
    simp

/-- Statements of every kind are conserved, with members passed on from a module of the host and
from another one. -/
theorem conserves_every_kind :
    ∃ config source program l chunks passed registered bindings,
      Node.ofSource source = .ok program ∧ config.runtimeModule = false ∧
      (ofProgram config program).result.1 = .ok l ∧ l.exports ≠ [] ∧ l.modules.length = 1 ∧
      OffRegistry config program chunks passed registered bindings ∧
      l.program = program.withForm (.program
        (registered.flatMap (fun m => Registry.externalModule m.2 m.1) ++ bindings ++
          (chunks.map Prod.snd).flatten ++
          [ExportRecord.publication config.moduleId l.exports])) := by
  have htest : lowersTo
      { moduleId := "main", runtimeModule := false, importPaths := some [("x", "lib/x.js")],
        external := some ⟨"y", [.literal 'y'], [], []⟩ }
      ("import a from 'x'; ; import ''; export const c = a; export * from 'y'; a();" ++
        "export \x7bdefault as d, e\x7d from 'x'; export * as f from 'y';" ++
        "export default function () \x7b\x7d export default a;")
      (fun _ l => !l.exports.isEmpty && l.modules.length == 1) = true := by
    decide +kernel
  obtain ⟨program, l, hprogram, hl, hlowered⟩ := exists_of_lowersTo htest
  obtain ⟨hsome, hmodules⟩ := Bool.and_eq_true_iff.1 hlowered
  have hexports : l.exports ≠ [] := by
    intro hnil
    rw [hnil] at hsome
    cases hsome
  obtain ⟨chunks, passed, registered, bindings, hoff, hshape⟩ :=
    ofProgram_conserves rfl hl hexports
  exact ⟨_, _, program, l, chunks, passed, registered, bindings, hprogram, rfl, hl, hexports,
    beq_iff_eq.1 hmodules, hoff, hshape⟩

end Lowering

end ModuleLowering
