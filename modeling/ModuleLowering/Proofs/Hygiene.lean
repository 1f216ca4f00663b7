import ModuleLowering.Proofs.Introductions
import ModuleLowering.Proofs.ItemNames
import ModuleLowering.Proofs.Records
import ModuleLowering.Proofs.Stages

/-!
# Hygiene

The names that a lowering allocates are new, differ from each other, and are each declared by one
statement of the lowered module alone, before any other statement refers to them: the object of a
CommonJS module first, then the modules in the order of their registration, then what is passed on,
then the defaults in their places.
-/

set_option autoImplicit false

namespace ModuleLowering

open Node

namespace Lowering

variable {given seen : List Text}

/-! ## Statements that a lowered module is given -/

theorem notMem_of_not_underscored (hgiven : ∀ x ∈ given, ("_" : Text) <+: x) {x : Text}
    (hx : ¬ ("_" : Text) <+: x) : x ∉ given :=
  fun hmem => hx (hgiven x hmem)

/-- The declaration of a constant introduces its name, wherever it stands. -/
theorem introduces_constantAt (loc : Option Position) (name : Text) {init : Option Node}
    (h : ∀ o ∈ init.toList.flatMap occurrences, Allowed given seen o) :
    Introduces given seen (.mk loc (constant name init).form) [name] := by
  have hoccurrences : (Node.mk loc (constant name init).form).occurrences =
      (constant name init).occurrences := rfl
  refine .of_allowed ?_ (fun x hx _ => hx) (fun x hx => hx)
  intro o ho
  rw [hoccurrences, occurrences_constant] at ho
  rcases List.mem_cons.1 ho with rfl | ho
  · exact .of_mem (by simp) (by simp)
  · exact (h o ho).mono fun x hx => List.mem_append_left _ hx

theorem introduces_constant {name : Text} {init : Option Node}
    (h : ∀ o ∈ init.toList.flatMap occurrences, Allowed given seen o) :
    Introduces given seen (constant name init) [name] :=
  introduces_constantAt none name h

/-- A call of the registry with texts and names in scope may occur. -/
theorem allowed_call (hgiven : ∀ x ∈ given, ("_" : Text) <+: x) {scope : List Text} {entry : Text}
    (hentry : ¬ ("_" : Text) <+: entry) {arguments : List Node}
    (harguments : ∀ o ∈ arguments.flatMap occurrences, Allowed given scope o) :
    ∀ o ∈ (Registry.call entry arguments).occurrences, Allowed given scope o := by
  intro o ho
  rw [Registry.occurrences_call] at ho
  rcases List.mem_append.1 ho with ho | ho
  · refine Allowed.of_registryPart (notMem_of_not_underscored hgiven (by decide)) ?_ o ho
    intro x hx
    rw [List.mem_singleton.1 hx]
    exact notMem_of_not_underscored hgiven hentry
  · exact harguments o ho

/-- Making a module available introduces its identifier. -/
theorem introducesAll_registration (hgiven : ∀ x ∈ given, ("_" : Text) <+: x) (key : ModuleKey)
    (ident : Text) : IntroducesAll given seen (key.registration ident) [ident] := by
  unfold ModuleKey.registration
  split
  case isTrue =>
    unfold Registry.externalModule
    have himport : Introduces given seen (wholeImport ident (.text key.path)) [ident] := by
      refine .of_allowed ?_ (fun x hx _ => hx) (fun x hx => hx)
      intro o ho
      rw [List.mem_singleton.1 ho]
      exact .of_mem (by simp) (by simp)
    have hcall : Introduces given (seen ++ [ident])
        (asStatement (Registry.call "external" [textLiteral key.path, identifier ident])) [] := by
      refine .of_declares_none ?_ (by simp)
      rw [occurrences_asStatement]
      refine allowed_call hgiven (by decide) ?_
      intro o ho
      rw [List.mem_singleton.1 ho]
      exact .of_mem (by simp) (by simp)
    exact .cons himport (.single hcall)
  case isFalse =>
    refine .single (introduces_constant ?_)
    rw [Option.toList_some, List.flatMap_singleton]
    exact allowed_call hgiven (by decide) (by simp)

/-- Making modules available introduces their identifiers, in order. -/
theorem introducesAll_registrations (hgiven : ∀ x ∈ given, ("_" : Text) <+: x)
    (modules : List ResolvedModule) :
    IntroducesAll given seen (modules.flatMap fun m => m.key.registration m.ident)
      (modules.map ResolvedModule.ident) := by
  induction modules generalizing seen with
  | nil => exact .nil seen
  | cons m modules ih =>
    rw [List.flatMap_cons, List.map_cons, ← List.singleton_append]
    exact (introducesAll_registration hgiven m.key m.ident).append ih

/-- What is read from a module that is in scope may occur. -/
theorem allowed_value (hgiven : ∀ x ∈ given, ("_" : Text) <+: x) {scope : List Text}
    {record : ImportRecord} {ident : Text} (hident : ident ∈ scope)
    (himported : record.kind = .named → record.importedName ∉ given) :
    ∀ o ∈ (record.value ident).occurrences, Allowed given scope o := by
  have hobject : Allowed given scope (.object, ident) := .of_mem (by simp) hident
  have hdefault : Allowed given scope (.member, "default") :=
    .of_notMem (notMem_of_not_underscored hgiven (by decide))
  intro o ho
  unfold ImportRecord.value at ho
  split at ho
  case h_3 hkind =>
    rw [occurrences_memberNamed_identifier] at ho
    rcases List.mem_cons.1 ho with rfl | ho
    · exact hobject
    · rw [List.mem_singleton.1 ho]
      exact .of_notMem (himported hkind)
  case h_4 =>
    rw [Registry.occurrences_asWildcard] at ho
    rcases List.mem_append.1 ho with ho | ho
    · refine Allowed.of_registryPart (notMem_of_not_underscored hgiven (by decide)) ?_ o ho
      intro x hx
      rcases List.mem_cons.1 hx with rfl | hx
      · exact notMem_of_not_underscored hgiven (by decide)
      · rw [List.mem_singleton.1 hx]
        exact notMem_of_not_underscored hgiven (by decide)
    · rw [List.mem_singleton.1 ho]
      exact .of_mem (by simp) hident
  all_goals
    rw [occurrences_memberNamed_identifier] at ho
    rcases List.mem_cons.1 ho with rfl | ho
    · exact hobject
    · rw [List.mem_singleton.1 ho]
      exact hdefault

/-- A statement that declares nothing but the name that something is taken under introduces this
name if it is new. -/
theorem introduces_of_name {record : ImportRecord} {s : Node}
    (hdeclares : s.declaredNames = [record.name])
    (hname : record.reexported = false → record.name ∉ given)
    (hocc : ∀ o ∈ s.occurrences,
      o = (.alone, record.name) ∨ Allowed given (seen ++ record.newNames) o) :
    Introduces given seen s record.newNames := by
  unfold ImportRecord.newNames at hocc ⊢
  cases hpassed : record.reexported with
  | true =>
    simp only [hpassed, if_true] at hocc ⊢
    refine .of_allowed ?_ (fun x hx _ => hdeclares ▸ hx) (fun x hx => hdeclares.symm ▸ hx)
    intro o ho
    rcases hocc o ho with rfl | ho
    · exact .of_mem (by simp) (by simp)
    · exact ho
  | false =>
    have hunknown : record.name ∉ given := hname hpassed
    simp only [hpassed, Bool.false_eq_true, if_false, List.append_nil] at hocc ⊢
    refine .of_declares_none ?_ ?_
    · intro o ho
      rcases hocc o ho with rfl | ho
      · exact .of_notMem hunknown
      · exact ho
    · intro y hy
      rw [hdeclares] at hy
      rw [List.mem_singleton.1 hy]
      exact hunknown

/-- Binding something taken introduces its name if that is new. -/
theorem introduces_bound (hgiven : ∀ x ∈ given, ("_" : Text) <+: x) {runtimeModule : Bool}
    {r : Resolver} {record : ImportRecord} {s : Node} (h : Bound runtimeModule r record s)
    (hidents : ∀ m ∈ r.modules, m.ident ∈ seen)
    (himported : record.kind = .named → record.importedName ∉ given)
    (hname : record.reexported = false → record.name ∉ given) :
    Introduces given seen s (record.newNames) := by
  cases h with
  | read specifier m hsource hm hkey hs =>
    rw [hs]
    refine introduces_of_name (declaredNames_constant _ _) hname ?_
    intro o ho
    rw [occurrences_constant, Option.toList_some, List.flatMap_singleton] at ho
    refine (List.mem_cons.1 ho).imp_right fun ho => ?_
    exact allowed_value hgiven (List.mem_append_left _ (hidents m hm)) himported o ho
  | imported hmode hhost hs =>
    rw [hs]
    unfold ImportRecord.importForm
    split
    case h_3 hkind =>
      refine introduces_of_name (declaredNames_namedImport _ _ _) hname ?_
      intro o ho
      rw [occurrences_namedImport] at ho
      refine (List.mem_cons.1 ho).imp_right fun ho => ?_
      rw [List.mem_singleton.1 ho]
      exact .of_notMem (himported hkind)
    all_goals
      exact introduces_of_name rfl hname fun o ho => Or.inl (List.mem_singleton.1 ho)

/-- Binding what is taken introduces the names of what is passed on, in order. -/
theorem introducesAll_bound (hgiven : ∀ x ∈ given, ("_" : Text) <+: x) {runtimeModule : Bool}
    {r : Resolver} {records : List ImportRecord} {bindings : List Node}
    (h : List.Forall₂ (Bound runtimeModule r) records bindings)
    (hidents : ∀ m ∈ r.modules, m.ident ∈ seen)
    (hrecords : ∀ record ∈ records, (record.kind = .named → record.importedName ∉ given) ∧
      (record.reexported = false → record.name ∉ given)) :
    IntroducesAll given seen bindings (records.flatMap ImportRecord.newNames) := by
  induction h generalizing seen with
  | nil => exact .nil seen
  | @cons record s records bindings hbound _ ih =>
    obtain ⟨himported, hname⟩ := hrecords record List.mem_cons_self
    rw [List.flatMap_cons]
    refine .cons (introduces_bound hgiven hbound hidents himported hname) (ih ?_ ?_)
    · exact fun m hm => List.mem_append_left _ (hidents m hm)
    · exact fun record' hrecord => hrecords record' (List.mem_cons_of_mem _ hrecord)

/-! ## What is left of the module -/

theorem occurrences_exportDefault (s n : Node) :
    (s.withForm (.exportDefaultDeclaration (some n))).occurrences = n.occurrences := by
  rw [occurrences_withForm s rfl]
  simp [Form.identifier?, Form.parts, Form.slots, Slot.parts]

/-- Nothing occurs in a node with another form but an identifier and what occurred in its parts. -/
theorem occurrences_withForm_subset {d : Node} {form : Form Node} {x : Text}
    (hstatic : d.form.isStaticMember = false) (hform : form.isStaticMember = false)
    (hname : form.identifier? = none)
    (hparts : ∀ c ∈ form.parts, c = identifier x ∨ c ∈ d.children) :
    ∀ o ∈ (d.withForm form).occurrences, o = (.alone, x) ∨ o ∈ d.occurrences := by
  intro o ho
  rw [occurrences_withForm d hform, hname] at ho
  obtain ⟨c, hc, hoc⟩ := List.mem_flatMap.1 ho
  rcases hparts c hc with rfl | hchild
  · exact Or.inl (List.mem_singleton.1 hoc)
  · exact Or.inr (mem_occurrences_of_mem_children hstatic hchild hoc)

/-- A function or class declaration that is given a name declares it, and nothing else occurs in it
that did not before. -/
structure Named (d named : Node) (x : Text) : Prop where
  ownNames : named.ownNames = [x]
  declaredNames : named.declaredNames = [x]
  occurrences : ∀ o ∈ named.occurrences, o = (.alone, x) ∨ o ∈ d.occurrences

/-- A function declaration can be given a name. -/
theorem named_function {d : Node} {id : Option Node} {params : List Node} {body : Option Node}
    {isAsync generator : Bool} (h : d.form = .functionDeclaration id params body isAsync generator)
    (x : Text) : Named d (Collecting.withId d (some (.identifier x))) x := by
  unfold Collecting.withId
  rw [h]
  refine ⟨rfl, rfl, occurrences_withForm_subset (by rw [h]; rfl) rfl rfl ?_⟩
  intro c hc
  rw [children, h]
  simp only [Form.parts, Form.slots, Slot.parts, List.flatMap_cons, List.flatMap_nil,
    List.append_nil, List.mem_append, Option.toList_some, List.mem_singleton] at hc ⊢
  exact hc.imp_right Or.inr

/-- A class declaration can be given a name. -/
theorem named_class {d : Node} {id superclass : Option Node} {body : List Node}
    (h : d.form = .classDeclaration id superclass body) (x : Text) :
    Named d (Collecting.withId d (some (.identifier x))) x := by
  unfold Collecting.withId
  rw [h]
  refine ⟨rfl, rfl, occurrences_withForm_subset (by rw [h]; rfl) rfl rfl ?_⟩
  intro c hc
  rw [children, h]
  simp only [Form.parts, Form.slots, Slot.parts, List.flatMap_cons, List.flatMap_nil,
    List.append_nil, List.mem_append, Option.toList_some, List.mem_singleton] at hc ⊢
  exact hc.imp_right Or.inr

/-- The export of a declaration with a name of its own introduces nothing. -/
theorem introducesAll_declared_own {runtimeModule : Bool} {s d : Node}
    (hknown : ∀ y ∈ d.names, y ∉ given) :
    IntroducesAll given seen
      (if runtimeModule then [d] else [s.withForm (.exportDefaultDeclaration (some d))]) [] := by
  have hocc : ∀ o ∈ d.occurrences, Allowed given seen o := fun o ho =>
    .of_notMem (hknown o.2 (mem_names_iff.2 ⟨o.1, ho⟩))
  cases runtimeModule with
  | true =>
    refine .single (.of_declares_none hocc ?_)
    intro y hy
    exact hknown y (mem_names_of_mem_references (mem_references_of_mem_declaredNames hy))
  | false =>
    refine .single (.of_declares_none ?_ ?_)
    · intro o ho
      rw [occurrences_exportDefault] at ho
      exact hocc o ho
    · intro y hy
      exact hknown y (mem_names_iff.2 ⟨_, alone_of_mem_ownNames hy⟩)

/-- The export of a declaration that is given a name introduces this name. -/
theorem introducesAll_declared_given {runtimeModule : Bool} {s d d' : Node} {x : Text}
    (hnamed : Named d d' x) (hknown : ∀ y ∈ d.names, y ∉ given) :
    IntroducesAll given seen
      (if runtimeModule then [d'] else [s.withForm (.exportDefaultDeclaration (some d'))]) [x] := by
  have hocc : ∀ o ∈ d'.occurrences, Allowed given (seen ++ [x]) o := by
    intro o ho
    rcases hnamed.occurrences o ho with rfl | ho
    · exact .of_mem (by simp) (by simp)
    · exact .of_notMem (hknown o.2 (mem_names_iff.2 ⟨o.1, ho⟩))
  cases runtimeModule with
  | true =>
    refine .single (.of_allowed hocc ?_ ?_)
    · intro y hy _
      rw [← hnamed.declaredNames]
      exact hy
    · intro y hy
      show y ∈ d'.declaredNames
      rw [hnamed.declaredNames]
      exact hy
  | false =>
    refine .single (.of_allowed ?_ ?_ ?_)
    · intro o ho
      rw [occurrences_exportDefault] at ho
      exact hocc o ho
    · intro y hy _
      rw [← hnamed.ownNames]
      exact hy
    · intro y hy
      show y ∈ d'.ownNames
      rw [hnamed.ownNames]
      exact hy

/-- What is left of the export of a declaration introduces its name if that is new. -/
theorem introducesAll_declared {runtimeModule : Bool} {s d : Node} {id : Option Node} {x : Text}
    (hnamed : Named d (Collecting.withId d (some (.identifier x))) x)
    (hknown : ∀ y ∈ d.names, y ∉ given) :
    IntroducesAll given seen
      (if runtimeModule then [d.withName id x]
        else [s.withForm (.exportDefaultDeclaration (some (d.withName id x)))])
      (if (partName? id).isSome then [] else [x]) := by
  unfold Node.withName
  cases (partName? id).isSome with
  | true => exact introducesAll_declared_own hknown
  | false => exact introducesAll_declared_given hnamed hknown

theorem defaultName?_of_item {f : Finding} {declaration : Option Node}
    (h : f.item = .published (defaultName? declaration) "default") :
    f.defaultName?.toList = if (defaultName? declaration).isSome then [] else [f.name] := by
  unfold Finding.defaultName?
  rw [h]
  cases defaultName? declaration <;> rfl

/-- What is left of the export of a default introduces its name if that is new. -/
theorem introducesAll_default {runtimeModule : Bool} {s : Node} {declaration : Option Node}
    {f : Finding} (hform : s.form = .exportDefaultDeclaration declaration)
    (hitem : f.item = .published (defaultName? declaration) "default")
    (hknown : ∀ y ∈ s.names, y ∉ given) :
    IntroducesAll given seen (defaultRemainder runtimeModule s declaration f.name)
      f.defaultName?.toList := by
  have hchild : ∀ d, declaration = some d → ∀ y ∈ d.names, y ∉ given := by
    rintro d rfl y hy
    refine hknown y (mem_names_of_mem_children (c := d) ?_ hy)
    simp [children, hform, Form.parts, Form.slots, Slot.parts]
  have hinit : ∀ scope, ∀ o ∈ declaration.toList.flatMap occurrences, Allowed given scope o := by
    intro scope o ho
    obtain ⟨d, hd, hod⟩ := List.mem_flatMap.1 ho
    exact .of_notMem (hchild d (Option.mem_toList.1 hd) o.2 (mem_names_iff.2 ⟨o.1, hod⟩))
  rw [defaultName?_of_item hitem]
  unfold defaultRemainder
  dsimp only
  split
  case h_1 d id params body isAsync generator hd =>
    rw [defaultName?_function hd]
    exact introducesAll_declared (named_function (Option.some.inj hd) _) (hchild d rfl)
  case h_2 d id superclass body hd =>
    rw [defaultName?_class hd]
    exact introducesAll_declared (named_class (Option.some.inj hd) _) (hchild d rfl)
  case h_3 hfunction hclass =>
    rw [defaultName?_eq_none hfunction hclass]
    have hbinding := introduces_constantAt s.loc f.name (hinit seen)
    cases runtimeModule with
    | true => exact .single hbinding
    | false =>
      have hexport : Introduces given (seen ++ [f.name])
          (s.withForm (.exportDefaultDeclaration (some (.identifier f.name)))) [] := by
        refine .of_declares_none ?_ ?_
        · intro o ho
          rw [occurrences_exportDefault] at ho
          rw [List.mem_singleton.1 ho]
          exact .of_mem (by simp) (by simp)
        · intro y hy
          exact absurd hy List.not_mem_nil
      exact .cons hbinding (.single hexport)

/-- What is left of a statement introduces the names of defaults that are new. -/
theorem introducesAll_remainder {runtimeModule : Bool} {s : Node} {fs : List Finding}
    (hitems : s.collectedItems runtimeModule = fs.map Finding.item)
    (hknown : ∀ y ∈ s.names, y ∉ given) :
    IntroducesAll given seen (s.remainder runtimeModule (fs.map Finding.name))
      (fs.filterMap Finding.defaultName?) := by
  by_cases hdefault : ∃ declaration, s.form = .exportDefaultDeclaration declaration
  · obtain ⟨declaration, hform⟩ := hdefault
    have hsingle : fs.map Finding.item = [.published (defaultName? declaration) "default"] := by
      rw [← hitems, collectedItems_default _ hform]
    obtain ⟨f, rfl, hitem⟩ := List.map_eq_singleton_iff.1 hsingle
    have hidle : Collecting.isIdle s = false := by
      rw [Collecting.isIdle, hform]
    rw [remainder, hidle, hform, List.filterMap_cons, List.filterMap_nil]
    exact introducesAll_default hform hitem hknown
  · -- Nothing else leaves a default without a name, and what is left are parts of the statement.
    have hform : ∀ declaration, s.form ≠ .exportDefaultDeclaration declaration :=
      fun declaration hd => hdefault ⟨declaration, hd⟩
    have hnone : fs.filterMap Finding.defaultName? = [] := by
      refine List.filterMap_eq_nil_iff.2 fun f hf => ?_
      have hitem : f.item ∈ s.items := by
        refine mem_items_of_mem_collectedItems runtimeModule ?_
        rw [hitems]
        exact List.mem_map_of_mem hf
      unfold Finding.defaultName?
      rw [if_neg fun hunnamed => hdefault ((wordsIn_items hitem).2 hunnamed)]
    rw [hnone]
    refine .of_forall fun t ht => .of_notMem fun y hy => hknown y ?_
    exact names_remainder_subset hform ht hy

/-- What is left of a module introduces the names of defaults that are new, in order. -/
theorem introducesAll_remains {runtimeModule : Bool} {body : List Node}
    {found : List (List Finding)}
    (hitems : body.map (Node.collectedItems runtimeModule) = found.map (List.map Finding.item))
    (hknown : ∀ s ∈ body, ∀ y ∈ s.names, y ∉ given) :
    IntroducesAll given seen
      (List.zipWith (fun s fs => s.remainder runtimeModule (fs.map Finding.name)) body
        found).flatten
      (found.flatten.filterMap Finding.defaultName?) := by
  induction body generalizing found seen with
  | nil =>
    have hfound : found = [] := List.map_eq_nil_iff.1 hitems.symm
    subst hfound
    exact .nil seen
  | cons s body ih =>
    cases found with
    | nil => exact absurd hitems (by simp)
    | cons fs found =>
      rw [List.map_cons, List.map_cons, List.cons.injEq] at hitems
      rw [List.zipWith_cons_cons, List.flatten_cons, List.flatten_cons, List.filterMap_append]
      refine (introducesAll_remainder hitems.1 (hknown s List.mem_cons_self)).append ?_
      exact ih hitems.2 fun t ht => hknown t (List.mem_cons_of_mem _ ht)

/-! ## What a lowered module publishes -/

/-- Telling the registry what a module publishes introduces nothing. -/
theorem introduces_publication (hgiven : ∀ x ∈ given, ("_" : Text) <+: x) (moduleId : Text)
    {exports : List ExportRecord} (hexports : ∀ r ∈ exports,
      (r.name ∈ given → r.name ∈ seen) ∧ (r.exportName ∈ given → r.exportName ∈ seen)) :
    Introduces given seen (ExportRecord.publication moduleId exports) [] := by
  have halone : ∀ x, (x ∈ given → x ∈ seen) → Allowed given seen (.alone, x) :=
    fun x hx hmem => hx hmem
  unfold ExportRecord.publication
  refine .of_declares_none ?_ (by simp [Registry.publication])
  intro o ho
  rw [Registry.occurrences_publication] at ho
  rcases List.mem_append.1 ho with ho | ho
  · refine Allowed.of_registryPart (notMem_of_not_underscored hgiven (by decide)) ?_ o ho
    intro x hx
    rw [List.mem_singleton.1 hx]
    exact notMem_of_not_underscored hgiven (by decide)
  · rcases List.mem_append.1 ho with ho | ho
    · obtain ⟨property, hproperty, hop⟩ := List.mem_flatMap.1 ho
      obtain ⟨r, hr, hkind⟩ := List.mem_filterMap.1 hproperty
      obtain ⟨hname, hkey⟩ := hexports r hr
      unfold ExportRecord.property? at hkind
      split at hkind
      case h_1 => cases hkind
      case h_2 =>
        cases hkind
        rw [Registry.occurrences_publishedProperty] at hop
        rcases List.mem_cons.1 hop with rfl | hop
        · exact halone _ hkey
        · rw [List.mem_singleton.1 hop]
          exact halone _ hname
    · obtain ⟨x, hx, rfl⟩ := List.mem_map.1 ho
      obtain ⟨r, hr, hkind⟩ := List.mem_filterMap.1 hx
      unfold ExportRecord.wildcard? at hkind
      split at hkind
      case h_1 =>
        cases hkind
        exact halone _ (hexports r hr).1
      case h_2 => cases hkind


/-! ## Lowered modules -/

/-- The names that a lowering gives: those of items that the program does not name, those of the
modules that are read from, and that of the object. -/
def givenNames (config : Config) (program : Node) (found : List (List Finding))
    (object : Option Text) : List Text :=
  found.flatten.filterMap Finding.newName? ++
    (resolver config program).modules.map ResolvedModule.ident ++ object.toList

/-- What is found in a module, a statement of it says. -/
theorem exists_statement_of_finding {runtimeModule : Bool} {body : List Node}
    {found : List (List Finding)}
    (hitems : body.map (Node.collectedItems runtimeModule) = found.map (List.map Finding.item))
    {f : Finding} (hf : f ∈ found.flatten) : ∃ s ∈ body, f.item ∈ s.items := by
  obtain ⟨fs, hfs, hffs⟩ := List.mem_flatten.1 hf
  have hmem : fs.map Finding.item ∈ body.map (Node.collectedItems runtimeModule) := by
    rw [hitems]
    exact List.mem_map_of_mem hfs
  obtain ⟨s, hs, hsfs⟩ := List.mem_map.1 hmem
  refine ⟨s, hs, mem_items_of_mem_collectedItems runtimeModule ?_⟩
  rw [hsfs]
  exact List.mem_map_of_mem hffs

/-- What is left of a module is left of a statement of it. -/
theorem exists_statement_of_remainder {runtimeModule : Bool} {body : List Node}
    {found : List (List Finding)}
    (hitems : body.map (Node.collectedItems runtimeModule) = found.map (List.map Finding.item))
    {t : Node} (ht : t ∈ (List.zipWith (fun s fs =>
      s.remainder runtimeModule (fs.map Finding.name)) body found).flatten) :
    ∃ s ∈ body, ∃ fs ∈ found, s.collectedItems runtimeModule = fs.map Finding.item ∧
      t ∈ s.remainder runtimeModule (fs.map Finding.name) := by
  induction body generalizing found with
  | nil => exact absurd ht List.not_mem_nil
  | cons s body ih =>
    cases found with
    | nil => exact absurd ht List.not_mem_nil
    | cons fs found =>
      rw [List.map_cons, List.map_cons, List.cons.injEq] at hitems
      rw [List.zipWith_cons_cons, List.flatten_cons] at ht
      rcases List.mem_append.1 ht with ht | ht
      · exact ⟨s, List.mem_cons_self, fs, List.mem_cons_self, hitems.1, ht⟩
      · obtain ⟨s', hs', fs', hfs', hrest⟩ := ih hitems.2 ht
        exact ⟨s', List.mem_cons_of_mem _ hs', fs', List.mem_cons_of_mem _ hfs', hrest⟩

namespace Stages

variable {config : Config} {program : Node} {body : List Node} {found : List (List Finding)}
  {bindings : List Node}

theorem mem_taken (h : Stages config program body found bindings) {s : Node} (hs : s ∈ body)
    {x : Text} (hx : x ∈ s.names) : x ∈ (Names.ofProgram program).taken := by
  refine mem_names_of_mem_children (c := s) ?_ hx
  rw [children, h.form]
  simpa [Form.parts, Form.slots, Slot.parts] using hs

/-- What is found in a module names nothing new. -/
theorem words_notMem (h : Stages config program body found bindings)
    (hgiven : ∀ x ∈ given, ("_" : Text) <+: x)
    (hnew : ∀ x ∈ given, x ∉ (Names.ofProgram program).taken) {f : Finding}
    (hf : f ∈ found.flatten) : ∀ x ∈ f.item.words, x ∉ given := by
  intro x hx hmem
  obtain ⟨s, hs, hitem⟩ := exists_statement_of_finding h.items hf
  rcases (wordsIn_items hitem).1 x hx with hname | hdefault
  · exact hnew x hmem (h.mem_taken hs hname)
  · rw [hdefault] at hmem
    exact notMem_of_not_underscored hgiven (by decide) hmem

/-- What makes modules available and binds what is taken from them introduces the identifiers of the
modules and the names of what is passed on. -/
theorem introducesAll_front (h : Stages config program body found bindings)
    (hgiven : ∀ x ∈ given, ("_" : Text) <+: x)
    (hnew : ∀ x ∈ given, x ∉ (Names.ofProgram program).taken) :
    IntroducesAll given seen (registrations config program ++ bindings)
      ((resolver config program).modules.map ResolvedModule.ident ++
        found.flatten.filterMap Finding.passedName?) := by
  refine (introducesAll_registrations hgiven _).append ?_
  rw [← Finding.flatMap_newNames]
  refine introducesAll_bound hgiven h.bound ?_ ?_
  · intro m hm
    exact List.mem_append_right _ (List.mem_map_of_mem hm)
  · intro record hrecord
    obtain ⟨f, hf, hfr⟩ := List.mem_filterMap.1 hrecord
    obtain ⟨himported, hname, -⟩ := Finding.importRecord?_spec hfr
    have hwords := h.words_notMem hgiven hnew hf
    exact ⟨fun hkind => hwords _ (himported hkind), fun hown => hwords _ (hname hown)⟩

/-- Without anything published, what is left of a module has the names of the module only. -/
theorem names_remains_subset (h : Stages config program body found bindings)
    (hexports : (collection config program).exports = []) {t : Node}
    (ht : t ∈ (collection config program).body) {x : Text} (hx : x ∈ t.names) :
    x ∈ (Names.ofProgram program).taken := by
  rw [h.remains] at ht
  obtain ⟨s, hs, fs, hfs, hitems, ht⟩ := exists_statement_of_remainder h.items ht
  refine h.mem_taken hs (names_remainder_subset ?_ ht hx)
  -- The export of a default would have been published.
  intro declaration hform
  have hitem : .published (defaultName? declaration) "default" ∈ fs.map Finding.item := by
    rw [← hitems, collectedItems_default _ hform]
    exact List.mem_singleton.2 rfl
  obtain ⟨f, hf, hfitem⟩ := List.mem_map.1 hitem
  obtain ⟨r, hr⟩ := Finding.exists_exportRecord hfitem
  have hmem : r ∈ (collection config program).exports := by
    rw [Collection.exports, h.findings]
    exact List.mem_filterMap.2 ⟨f, List.mem_flatten.2 ⟨fs, hfs, hf⟩, hr⟩
  rw [hexports] at hmem
  exact absurd hmem List.not_mem_nil

/-- What a module ends with that publishes something introduces the names of defaults. -/
theorem introducesAll_published (h : Stages config program body found bindings)
    (hgiven : ∀ x ∈ given, ("_" : Text) <+: x)
    (hnew : ∀ x ∈ given, x ∉ (Names.ofProgram program).taken)
    (hseen : ∀ x ∈ found.flatten.filterMap Finding.newName?, x ∈ given →
      x ∈ seen ++ found.flatten.filterMap Finding.defaultName?) :
    IntroducesAll given seen
      ((collection config program).body ++
        [ExportRecord.publication config.moduleId (collection config program).exports])
      (found.flatten.filterMap Finding.defaultName?) := by
  have hremains : IntroducesAll given seen (collection config program).body
      (found.flatten.filterMap Finding.defaultName?) := by
    rw [h.remains]
    exact introducesAll_remains h.items fun s hs y hy hmem => hnew y hmem (h.mem_taken hs hy)
  have hpublication : Introduces given (seen ++ found.flatten.filterMap Finding.defaultName?)
      (ExportRecord.publication config.moduleId (collection config program).exports) [] := by
    refine introduces_publication hgiven _ ?_
    intro r hr
    rw [Collection.exports, h.findings] at hr
    obtain ⟨f, hf, hfr⟩ := List.mem_filterMap.1 hr
    obtain ⟨hname, hkey⟩ := Finding.exportRecord?_spec hfr
    have hwords := h.words_notMem hgiven hnew hf
    have hown : f.name ∈ given → f.name ∈ seen ++ found.flatten.filterMap Finding.defaultName? := by
      intro hmem
      rcases f.name_mem_words_or_newName? with hword | hnewName
      · exact absurd hmem (hwords _ hword)
      · exact hseen _ (List.mem_filterMap.2 ⟨f, hf, hnewName⟩) hmem
    refine ⟨by rw [hname]; exact hown, fun hmem => ?_⟩
    rcases hkey with hkey | hword
    · rw [hkey] at hmem ⊢
      exact hown hmem
    · exact absurd hmem (hwords _ hword)
  have hall := hremains.append (.single hpublication)
  rw [List.append_nil] at hall
  exact hall

/-- What is left of a module that publishes nothing introduces nothing when it is rewritten. -/
theorem introducesAll_rewritten (h : Stages config program body found bindings)
    (hgiven : ∀ x ∈ given, ("_" : Text) <+: x)
    (hnew : ∀ x ∈ given, x ∉ (Names.ofProgram program).taken) {boundary : Text}
    (hboundary : boundary ∈ given → boundary ∈ seen) {rest : List Node}
    (hexports : (collection config program).exports = [])
    (hrest : ComesFrom (StemsFrom boundary) (collection config program).body rest) :
    IntroducesAll given seen rest [] := by
  refine .of_forall fun t ht => ?_
  obtain ⟨s, hs, hst⟩ := hrest t ht
  have hold : ∀ x ∈ s.names, x ∉ given := fun x hx hmem =>
    hnew x hmem (h.names_remains_subset hexports hs hx)
  refine .of_declares_none ?_ ?_
  · intro o ho
    rcases hst o ho with hname | rfl | rfl | ⟨hstanding, hmember⟩
    · exact .of_notMem (hold _ hname)
    · exact .of_notMem (notMem_of_not_underscored hgiven (by decide))
    · exact fun hmem => hboundary hmem
    · intro hmem
      rw [if_pos hstanding]
      unfold insertedMembers at hmember
      simp only [List.mem_cons, List.not_mem_nil, or_false] at hmember
      rcases hmember with hname | hname | hname | hname
      · exact hname
      all_goals
        rw [hname] at hmem
        exact absurd hmem (notMem_of_not_underscored hgiven (by decide))
  · intro x hx
    -- What is inserted never stands alone, as what is declared does.
    rcases hst _ (alone_of_mem_declaredNames hx) with hname | hglobal | hobject | hmember
    · exact hold x hname
    · cases hglobal
    · cases hobject
    · cases hmember.1

/-- The declaration of the object of a module introduces its name. -/
theorem introducesAll_object (hgiven : ∀ x ∈ given, ("_" : Text) <+: x) (moduleId : Text)
    (object : Option Text) :
    IntroducesAll given seen (object.toList.map (Registry.boundary · moduleId)) object.toList := by
  cases object with
  | none => exact .nil seen
  | some x =>
    refine .single (introduces_constant ?_)
    rw [Option.toList_some, List.flatMap_singleton]
    exact allowed_call hgiven (by decide) (by simp)

/-- The order in which a lowered module introduces the names that have been given. -/
theorem givenNames_perm (object : Option Text) :
    (object.toList ++ ((resolver config program).modules.map ResolvedModule.ident ++
        found.flatten.filterMap Finding.passedName?) ++
      found.flatten.filterMap Finding.defaultName?).Perm
      (givenNames config program found object) := by
  unfold givenNames
  refine .trans ?_ List.perm_append_comm
  rw [List.append_assoc, List.append_assoc]
  refine (List.Perm.append_left _ ?_)
  refine .trans ?_ List.perm_append_comm
  exact (Finding.newNames_perm found.flatten).symm.append_left _

/-- A module without exports gives no names to defaults. -/
theorem defaultNames_eq_nil (h : Stages config program body found bindings)
    (hexports : (collection config program).exports = []) :
    found.flatten.filterMap Finding.defaultName? = [] := by
  rw [Collection.exports, h.findings] at hexports
  exact List.filterMap_eq_nil_iff.2 fun f hf =>
    Finding.defaultName?_eq_none (List.filterMap_eq_nil_iff.1 hexports f hf)

/-- A lowered module introduces the names that have been given: that of its object, those of the
modules, those of what is passed on and those of defaults, in this order. -/
theorem introducesAll (h : Stages config program body found bindings) {l : Lowering}
    (hl : l = assemble config program (collection config program) bindings
      (resolver config program)) :
    ∃ object order, Allocated (.ofProgram program) (namesAfter config program l)
        (givenNames config program found object) ∧
      order.Perm (givenNames config program found object) ∧
      IntroducesAll (givenNames config program found object) [] l.program.statements order := by
  obtain ⟨object, rest, hprogram, hobject, hending⟩ := h.lowered hl
  have hbefore := h.collected.trans h.registered
  have hall := hbefore.trans hobject
  have hdeclared : IntroducesAll _ [] _ _ :=
    introducesAll_object hall.underscored config.moduleId object
  have hfront : IntroducesAll _ ([] ++ object.toList) _ _ :=
    h.introducesAll_front hall.underscored hall.notMem
  refine ⟨object, _, hall, givenNames_perm object, ?_⟩
  rw [hprogram]
  show IntroducesAll _ [] (_ ++ _ ++ rest) _
  refine (hdeclared.append hfront).append ?_
  cases hending with
  | published hexports hnone hrest =>
    rw [hrest]
    refine h.introducesAll_published hall.underscored hall.notMem ?_
    intro x hx _
    rcases List.mem_append.1 ((Finding.newNames_perm found.flatten).subset hx) with
      hpassed | hdefault
    · refine List.mem_append_left _ (List.mem_append_right [] ?_)
      exact List.mem_append_right _ (List.mem_append_right _ hpassed)
    · exact List.mem_append_right _ hdefault
  | rewritten boundary hexports hname hnew hrest =>
    rw [h.defaultNames_eq_nil hexports]
    refine h.introducesAll_rewritten hall.underscored hall.notMem ?_ hexports hrest
    -- The name of the object is given for it alone.
    intro hmem
    rcases List.mem_append.1 hmem with hearlier | hobj
    · refine absurd ?_ hnew
      rw [hbefore.taken]
      exact List.mem_append_left _ (List.mem_reverse.2 hearlier)
    · simp [hobj]

/-- Nothing behind the bindings refers to a module that is read from. -/
theorem notMem_references_rest (h : Stages config program body found bindings)
    {object : Option Text} {rest : List Node}
    (hending : Ending config program (collection config program).exports
      (collection config program).body object rest) {s : Node} (hs : s ∈ rest) :
    ∀ x ∈ (resolver config program).modules.map ResolvedModule.ident, x ∉ s.references := by
  have hnames := h.collected.trans h.registered
  have hgiven : ∀ x ∈ (resolver config program).modules.map ResolvedModule.ident,
      ("_" : Text) <+: x := fun x hx => hnames.underscored x (List.mem_append_right _ hx)
  have hnew : ∀ x ∈ (resolver config program).modules.map ResolvedModule.ident,
      x ∉ (Names.ofProgram program).taken := fun x hx =>
    hnames.notMem x (List.mem_append_right _ hx)
  have hdisjoint := (List.nodup_append.1 hnames.nodup).2.2
  intro x hx hreference
  cases hending with
  | published _ _ hrest =>
    rw [hrest] at hs
    have hall : IntroducesAll _ [] _ _ := h.introducesAll_published hgiven hnew
      fun y hy hmem => absurd rfl (hdisjoint y hy y hmem)
    rcases hall.mem_of_references hs hreference hx with hnone | hdefault
    · exact absurd hnone List.not_mem_nil
    · refine hdisjoint x ?_ x hx rfl
      exact (Finding.newNames_perm found.flatten).symm.subset (List.mem_append_right _ hdefault)
  | rewritten boundary hexports _ hfresh hrest =>
    have hboundary : boundary ∈ (resolver config program).modules.map ResolvedModule.ident →
        boundary ∈ [] := by
      intro hmem
      refine absurd ?_ hfresh
      rw [h.registered.taken]
      exact List.mem_append_left _ (List.mem_reverse.2 hmem)
    have hall := h.introducesAll_rewritten hgiven hnew hboundary hexports hrest
    exact (hall.mem_of_references hs hreference hx).elim List.not_mem_nil List.not_mem_nil

/-- The names that have been given are declared once. -/
theorem declaredOnce (h : Stages config program body found bindings) {l : Lowering}
    (hl : l = assemble config program (collection config program) bindings
      (resolver config program)) :
    ∃ object, Allocated (.ofProgram program) (namesAfter config program l)
        (givenNames config program found object) ∧
      ∀ x ∈ givenNames config program found object, DeclaredOnce x l.program.statements := by
  obtain ⟨object, order, hallocated, hperm, hintroduces⟩ := h.introducesAll hl
  refine ⟨object, hallocated, fun x hx => ?_⟩
  refine hintroduces.declaredOnce (hperm.nodup_iff.2 hallocated.nodup) ?_ x (hperm.mem_iff.2 hx)
  exact fun y hy => ⟨hperm.mem_iff.1 hy, List.not_mem_nil⟩

end Stages

theorem ofProgram_declaredOnce {config : Config} {program : Node} {l : Lowering}
    (h : (ofProgram config program).result.1 = .ok l) :
    ∃ given, Allocated (.ofProgram program) (namesAfter config program l) given ∧
      ∀ x ∈ given, DeclaredOnce x l.program.statements := by
  obtain ⟨body, found, bindings, hstages, hl⟩ := stages_of_ok h
  obtain ⟨object, hallocated, hdeclared⟩ := hstages.declaredOnce hl
  exact ⟨_, hallocated, hdeclared⟩

/-- The identifier of a module, a default and what is passed on are each declared once. -/
theorem declaredOnce_of_mixed_module :
    ∃ program l,
      Node.ofSource "import a from 'x'; export default a; export * from 'y';" = .ok program ∧
      (ofProgram { moduleId := "main", runtimeModule := true } program).result.1 = .ok l ∧
      ∀ x ∈ [("_x" : Text), "__export_default", "__re_export_all"],
        DeclaredOnce x l.program.statements := by
  have htest : lowersTo { moduleId := "main", runtimeModule := true }
      "import a from 'x'; export default a; export * from 'y';" (fun program l =>
        [("_x" : Text), "__export_default", "__re_export_all"].all fun x =>
          decide (x ∈ (namesAfter { moduleId := "main", runtimeModule := true } program l).taken ∧
            x ∉ (Names.ofProgram program).taken)) = true := by
    decide +kernel
  obtain ⟨program, l, hprogram, hl, hnew⟩ := exists_of_lowersTo htest
  obtain ⟨given, hallocated, hdeclared⟩ := ofProgram_declaredOnce hl
  refine ⟨program, l, hprogram, hl, fun x hx => hdeclared x ?_⟩
  obtain ⟨htaken, hfree⟩ := of_decide_eq_true (List.all_eq_true.1 hnew x hx)
  rw [hallocated.taken] at htaken
  exact List.mem_reverse.1 ((List.mem_append.1 htaken).resolve_right hfree)

/-- The name of the registry can be given to a module, and then it occurs behind a dot before it is
declared. -/
theorem given_name_occurs_before_declaration :
    ∃ program l,
      Node.ofSource "import a from 'x'; import b from '@modules'; export \x7ba, b\x7d;" =
        .ok program ∧
      (ofProgram { moduleId := "main", runtimeModule := true } program).result.1 = .ok l ∧
      ∃ x, x ∈ (namesAfter { moduleId := "main", runtimeModule := true } program l).taken ∧
        x ∉ (Names.ofProgram program).taken ∧
        ∀ before d after, l.program.statements = before ++ d :: after → x ∈ d.declaredNames →
          ∃ s ∈ before, x ∈ s.names := by
  have htest : lowersTo { moduleId := "main", runtimeModule := true }
      "import a from 'x'; import b from '@modules'; export \x7ba, b\x7d;" (fun program l =>
        decide (("__modules" : Text) ∈
            (namesAfter { moduleId := "main", runtimeModule := true } program l).taken ∧
          ("__modules" : Text) ∉ (Names.ofProgram program).taken) &&
        l.program.statements.head?.any fun s =>
          decide (("__modules" : Text) ∈ s.names ∧ ("__modules" : Text) ∉ s.declaredNames)) =
        true := by
    decide +kernel
  obtain ⟨program, l, hprogram, hl, htest⟩ := exists_of_lowersTo htest
  obtain ⟨hgiven, hfirst⟩ := Bool.and_eq_true_iff.1 htest
  obtain ⟨htaken, hfree⟩ := of_decide_eq_true hgiven
  refine ⟨program, l, hprogram, hl, "__modules", htaken, hfree, ?_⟩
  intro before d after hsplit hd
  rw [hsplit] at hfirst
  cases before with
  | nil => exact absurd hd (of_decide_eq_true hfirst).2
  | cons s before => exact ⟨s, List.mem_cons_self, (of_decide_eq_true hfirst).1⟩

end Lowering

end ModuleLowering
