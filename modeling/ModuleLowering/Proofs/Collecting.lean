import ModuleLowering.Proofs.FreshNames
import ModuleLowering.Proofs.Items
import ModuleLowering.Proofs.Success

/-!
# Laws of collecting

When collecting succeeds, each statement has contributed findings that say what the statement says,
in its order, and the new body holds what is left of each statement. The names that were allocated
on the way are those of the findings that the program does not name itself.
-/

set_option autoImplicit false

namespace ModuleLowering

open Node

/-- Between two states of the collector the findings `fs` were added, and names were allocated for
those that the program does not name. -/
structure Gathered (c c' : Collection) (fs : List Finding) : Prop where
  findings : c'.findings = c.findings ++ fs
  body : c'.body = c.body
  names : Allocated c.names c'.names (fs.filterMap Finding.newName?)

namespace Gathered

theorem refl (c : Collection) : Gathered c c [] := ⟨by simp, rfl, .refl c.names⟩

theorem trans {c c' c'' : Collection} {early late : List Finding} (h : Gathered c c' early)
    (k : Gathered c' c'' late) : Gathered c c'' (early ++ late) := by
  refine ⟨?_, k.body.trans h.body, ?_⟩
  · rw [k.findings, h.findings, List.append_assoc]
  · rw [List.filterMap_append]
    exact h.names.trans k.names

end Gathered

namespace Collecting

/-! ## Steps -/

theorem gathered_add {f : Finding} {c c' : Collection} {u : Unit} {x : Text}
    (h : Yields (add f) c u c') (hname : f.item.ownName? = some x) : Gathered c c' [f] := by
  have hstate := Yields.modify_iff.1 h
  subst hstate
  refine ⟨rfl, rfl, ?_⟩
  have hnone : f.newName? = none := NamedItem.newName?_of_own hname
  rw [List.filterMap_cons_none hnone]
  exact .refl c.names

/-- Adding a finding under a name that was allocated for it gathers it. -/
theorem gathered_fresh {f : Finding} {c c' c'' : Collection} {u : Unit} {base x : Text}
    (hx : Yields (freshName base) c x c') (h : Yields (add f) c' u c'')
    (hbase : ("_" : Text) <+: base) (hitem : f.item.ownName? = none) (hname : f.name = x) :
    Gathered c c'' [f] := by
  have hstate := Yields.modify_iff.1 h
  subst hstate
  obtain ⟨d, d', hget, hrest⟩ := Yields.bind_iff.1 hx
  obtain ⟨rfl, rfl⟩ := Yields.get_iff.1 hget
  obtain ⟨_, d'', hset, hpure⟩ := Yields.bind_iff.1 hrest
  have hd := Yields.set_iff.1 hset
  obtain ⟨rfl, rfl⟩ := Yields.pure_iff.1 hpure
  subst hd
  refine ⟨rfl, rfl, ?_⟩
  have hsome : f.newName? = some f.name := NamedItem.newName?_of_not_own hitem
  rw [List.filterMap_cons_some hsome, hname]
  exact .fresh c.names hbase

/-- A name that has to be there is there. -/
theorem yields_identifierName {part : Option Node} {c c' : Collection} {x : Text}
    (h : Yields (identifierName part) c x c') : partName? part = some x ∧ c' = c := by
  unfold identifierName at h
  unfold partName?
  split at h
  case h_1 name hname =>
    obtain ⟨rfl, rfl⟩ := Yields.pure_iff.1 h
    exact ⟨hname, rfl⟩
  case h_2 => exact absurd h Yields.not_throw

/-- A name that a form gives is that of an identifier. -/
theorem yields_formName {role : NameRole} {part : Option Node} {c c' : Collection} {x : Text}
    (h : Yields (formName role part) c x c') : partName? part = some x ∧ c' = c := by
  unfold formName at h
  split at h
  case h_1 => exact absurd h Yields.not_throw
  case h_2 n =>
    split at h
    case h_1 name hname =>
      obtain ⟨rfl, rfl⟩ := Yields.pure_iff.1 h
      exact ⟨hname, rfl⟩
    case h_2 => exact absurd h Yields.not_throw

/-- A specifier that a form gives is a literal. -/
theorem yields_sourceValue {source : Option Node} {c c' : Collection} {v : Value}
    (h : Yields (sourceValue source) c v c') : literalValue? source = some v ∧ c' = c := by
  unfold sourceValue at h
  split at h
  case h_1 value raw hform =>
    obtain ⟨rfl, rfl⟩ := Yields.pure_iff.1 h
    rw [literalValue?, hform]
    exact ⟨rfl, rfl⟩
  case h_2 => exact absurd h Yields.not_throw

/-- Going through a list gathers the findings of each step, in order. -/
theorem gathered_forM {step : Node → Collecting Unit} {item? : Node → Option ModuleItem}
    (hstep : ∀ n c c', Yields (step n) c () c' →
      ∃ f, Gathered c c' [f] ∧ item? n = some f.item)
    {ns : List Node} {c c' : Collection} (h : Yields (ns.forM step) c () c') :
    ∃ fs, Gathered c c' fs ∧ ns.filterMap item? = fs.map Finding.item ∧
      fs.length = ns.length := by
  induction ns generalizing c with
  | nil =>
    have hstate := Yields.forM_nil_iff.1 h
    subst hstate
    exact ⟨[], .refl c, rfl, rfl⟩
  | cons n ns ih =>
    obtain ⟨d, hn, hns⟩ := Yields.forM_cons_iff.1 h
    obtain ⟨f, hf, hitem⟩ := hstep n c d hn
    obtain ⟨fs, hfs, hitems, hlength⟩ := ih hns
    refine ⟨f :: fs, hf.trans hfs, ?_, ?_⟩
    · rw [List.filterMap_cons_some hitem, hitems, List.map_cons]
    · rw [List.length_cons, List.length_cons, hlength]

/-! ## Specifiers -/

/-- A specifier of an import is gathered as what it says. -/
theorem gathered_importSpecifier {v : Value} {specifier : Node} {c c' : Collection}
    (h : Yields (importSpecifier v specifier) c () c') :
    ∃ f, Gathered c c' [f] ∧ importItem? v specifier = some f.item := by
  unfold importSpecifier at h
  unfold importItem?
  split at h
  case h_1 part hform =>
    obtain ⟨x, d, hx, hadd⟩ := Yields.bind_iff.1 h
    obtain ⟨hname, rfl⟩ := yields_identifierName hx
    refine ⟨_, gathered_add hadd rfl, ?_⟩
    rw [hform]
    simp only [hname, Option.map_some, Finding.item]
  case h_2 part hform =>
    obtain ⟨x, d, hx, hadd⟩ := Yields.bind_iff.1 h
    obtain ⟨hname, rfl⟩ := yields_identifierName hx
    refine ⟨_, gathered_add hadd rfl, ?_⟩
    rw [hform]
    simp only [hname, Option.map_some, Finding.item]
  case h_3 =>
    obtain ⟨m, d, hm, hrest⟩ := Yields.bind_iff.1 h
    obtain ⟨himported, rfl⟩ := yields_formName hm
    obtain ⟨x, e, hx, hadd⟩ := Yields.bind_iff.1 hrest
    obtain ⟨hname, rfl⟩ := yields_identifierName hx
    refine ⟨_, gathered_add hadd rfl, ?_⟩
    unfold importedPart? at himported
    unfold namePart? at hname
    -- Only an import specifier has an imported part.
    split at himported
    case h_1 part imported hform =>
      rw [hform] at hname ⊢
      simp only [himported, hname, Option.bind_some, Option.map_some, Finding.item]
    case h_2 => exact absurd himported (by simp [partName?])

/-- A specifier of an export of names of this module is gathered as what it says. -/
theorem gathered_exportSpecifier {specifier : Node} {c c' : Collection}
    (h : Yields (exportSpecifier specifier) c () c') :
    ∃ f, Gathered c c' [f] ∧ exportItem? specifier = some f.item := by
  unfold exportSpecifier at h
  obtain ⟨x, d, hx, hrest⟩ := Yields.bind_iff.1 h
  obtain ⟨hname, rfl⟩ := yields_formName hx
  obtain ⟨y, e, hy, hguard⟩ := Yields.bind_iff.1 hrest
  obtain ⟨hexported, rfl⟩ := yields_formName hy
  dsimp only at hguard
  split at hguard
  case isTrue =>
    obtain ⟨_, _, hthrow, -⟩ := Yields.bind_iff.1 hguard
    exact absurd hthrow Yields.not_throw
  case isFalse =>
    refine ⟨_, gathered_add hguard rfl, ?_⟩
    unfold exportedPart? at hexported
    unfold namePart? at hname
    split at hexported
    case h_1 part exported hform =>
      rw [hform] at hname
      rw [exportItem?, hform]
      simp only [hexported, hname, Option.bind_some, Option.map_some, Finding.item]
    case h_2 => exact absurd hexported (by simp [partName?])

/-- A specifier of an export of names of another module is gathered as what it says. -/
theorem gathered_reexportSpecifier {v : Value} {specifier : Node} {c c' : Collection}
    (h : Yields (reexportSpecifier v specifier) c () c') :
    ∃ f, Gathered c c' [f] ∧ reexportItem? v specifier = some f.item := by
  unfold reexportSpecifier at h
  obtain ⟨x, d, hx, hrest⟩ := Yields.bind_iff.1 h
  obtain ⟨hname, rfl⟩ := yields_formName hx
  obtain ⟨y, e, hy, hfresh⟩ := Yields.bind_iff.1 hrest
  obtain ⟨hexported, rfl⟩ := yields_formName hy
  obtain ⟨z, e', hz, hadd⟩ := Yields.bind_iff.1 hfresh
  refine ⟨_, gathered_fresh hz hadd ⟨_, rfl⟩ rfl rfl, ?_⟩
  unfold exportedPart? at hexported
  unfold namePart? at hname
  split at hexported
  case h_1 part exported hform =>
    rw [hform] at hname
    rw [reexportItem?, hform]
    simp only [hexported, hname, Option.bind_some, Option.map_some, Finding.item]
  case h_2 => exact absurd hexported (by simp [partName?])

/-- A variable that is declared and published is gathered as what it says. -/
theorem gathered_exportedVariable {statement declarator : Node} {kind : Text} {c c' : Collection}
    (h : Yields (exportedVariable statement kind declarator) c () c') :
    ∃ f, Gathered c c' [f] ∧
      ((idPart? declarator).bind fun id => (partName? id).map declaredItem) = some f.item := by
  unfold exportedVariable at h
  split at h
  case h_1 => exact absurd h Yields.not_throw
  case h_2 id hid =>
    split at h
    case h_1 x hx =>
      refine ⟨_, gathered_add h rfl, ?_⟩
      rw [hid]
      unfold partName?
      simp only [Option.bind_some, hx, Option.map_some, Finding.item, declaredItem]
    case h_2 => exact absurd h Yields.not_throw

/-! ## Statements -/

/-- The findings `fs` say what a statement says, and `kept` is what is left of it. Nothing in the
statement has been passed over if it matters what it says. -/
structure Collected (runtimeModule : Bool) (s : Node) (fs : List Finding) (kept : List Node) :
    Prop where
  items : s.collectedItems runtimeModule = fs.map Finding.item
  kept : kept = s.remainder runtimeModule (fs.map Finding.name)
  complete : s.isInspected runtimeModule = true → s.Complete

/-- A statement is complete if it is no export of a declaration, says all that it has to and names
its default. -/
theorem complete_of_items {s : Node} {form : Form Node} {fs : List Finding}
    (hform : s.form = form)
    (hnames : ∀ declaration specifiers source,
      form ≠ .exportNamedDeclaration (some declaration) specifiers source)
    (hdefault : ∀ declaration, form = .exportDefaultDeclaration declaration →
      ∀ id ∈ defaultId? declaration, id.name?.isSome)
    (hitems : s.items = fs.map Finding.item) (hlength : fs.length = s.itemCount) :
    s.Complete := by
  refine ⟨⟨?_, fun declaration specifiers source h => ?_⟩, fun declaration h => ?_⟩
  · rw [hitems, List.length_map, hlength]
  · exact absurd (hform.symm.trans h) (hnames _ _ _)
  · exact hdefault declaration (hform.symm.trans h)

/-- An idle statement says nothing and goes. -/
theorem collected_idle {runtimeModule : Bool} {s : Node} (h : isIdle s = true) :
    Collected runtimeModule s [] [] := by
  have hsays : s.items = [].map Finding.item ∧ s.Complete := by
    unfold isIdle at h
    split at h
    case h_1 hform =>
      have hitems : s.items = [].map Finding.item := by
        rw [items, hform]
        rfl
      refine ⟨hitems, complete_of_items hform (by simp) (by simp) hitems ?_⟩
      rw [itemCount, hform]
      rfl
    case h_2 source hform =>
      have hitems : s.items = [].map Finding.item := by
        rw [items, hform]
        show (literalValue? (some source)).elim [] (fun _ => []) = []
        cases literalValue? (some source) <;> rfl
      refine ⟨hitems, complete_of_items hform (by simp) (by simp) hitems ?_⟩
      rw [itemCount, hform]
      rfl
    case h_3 => exact absurd h (by simp)
  obtain ⟨hitems, hcomplete⟩ := hsays
  refine ⟨?_, ?_, fun _ => ?_⟩
  · exact collectedItems_eq_nil _ hitems
  · unfold remainder
    rw [if_pos h]
  · exact hcomplete

/-- An import that is collected. -/
theorem collected_importForm {runtimeModule : Bool} {s : Node} {specifiers : List Node}
    {source : Option Node} {c c' : Collection} {kept : List Node}
    (hform : s.form = .importDeclaration specifiers source) (hidle : isIdle s = false)
    (h : Yields (importForm runtimeModule s specifiers source) c kept c') :
    ∃ fs, Gathered c c' fs ∧ Collected runtimeModule s fs kept := by
  unfold importForm at h
  cases runtimeModule with
  | false =>
    obtain ⟨rfl, rfl⟩ := Yields.pure_iff.1 h
    refine ⟨[], .refl c, ?_, ?_, ?_⟩
    · rw [collectedItems, hform]
      rfl
    · rw [remainder, hidle, hform]
      rfl
    · intro hinspected
      rw [isInspected, hform] at hinspected
      cases hinspected
  | true =>
    obtain ⟨v, d, hv, hrest⟩ := Yields.bind_iff.1 h
    obtain ⟨hsource, rfl⟩ := yields_sourceValue hv
    obtain ⟨_, e, hspecifiers, hpure⟩ := Yields.bind_iff.1 hrest
    obtain ⟨rfl, rfl⟩ := Yields.pure_iff.1 hpure
    obtain ⟨fs, hfs, hitems, hlength⟩ :=
      gathered_forM (fun _ _ _ => gathered_importSpecifier) hspecifiers
    have hsaid : s.items = fs.map Finding.item := by
      rw [items, hform]
      simp only [hsource, Option.elim_some]
      exact hitems
    refine ⟨fs, hfs, ?_, ?_, fun _ => complete_of_items hform (by simp) (by simp) hsaid ?_⟩
    · rw [collectedItems, hform]
      exact hsaid
    · rw [remainder, hidle, hform]
      rfl
    · rw [itemCount, hform]
      exact hlength

/-- The declaration of a default is gathered under its name, or under a new one that it is given. -/
theorem gathered_defaultDeclaration {d d' : Node} {id : Option Node} {base : Text}
    {c c' : Collection} (hbase : ("_" : Text) <+: base)
    (h : Yields (defaultDeclaration d id base) c d' c') :
    ∃ f, Gathered c c' [f] ∧ f.item = .published (partName? id) "default" ∧
      d' = d.withName id f.name ∧ ∀ n ∈ id, n.name?.isSome := by
  unfold defaultDeclaration at h
  split at h
  case h_1 =>
    obtain ⟨x, e, hx, hrest⟩ := Yields.bind_iff.1 h
    obtain ⟨_, e', hadd, hpure⟩ := Yields.bind_iff.1 hrest
    obtain ⟨rfl, rfl⟩ := Yields.pure_iff.1 hpure
    exact ⟨_, gathered_fresh hx hadd hbase rfl rfl, rfl, rfl, fun n hn => nomatch hn⟩
  case h_2 n =>
    obtain ⟨x, e, hx, hrest⟩ := Yields.bind_iff.1 h
    obtain ⟨hname, rfl⟩ := yields_identifierName hx
    obtain ⟨_, e', hadd, hpure⟩ := Yields.bind_iff.1 hrest
    obtain ⟨rfl, rfl⟩ := Yields.pure_iff.1 hpure
    refine ⟨_, gathered_add hadd rfl, ?_, ?_, ?_⟩
    · rw [hname]
      rfl
    · unfold withName
      rw [hname]
      rfl
    · intro m hm
      cases hm
      exact Option.isSome_of_eq_some hname

/-- The export of a default that is collected. -/
theorem collected_defaultForm {runtimeModule : Bool} {s : Node} {declaration : Option Node}
    {c c' : Collection} {kept : List Node}
    (hform : s.form = .exportDefaultDeclaration declaration) (hidle : isIdle s = false)
    (h : Yields (defaultForm runtimeModule s declaration) c kept c') :
    ∃ fs, Gathered c c' fs ∧ Collected runtimeModule s fs kept := by
  suffices hdefault : ∃ f, Gathered c c' [f] ∧
      f.item = .published (defaultName? declaration) "default" ∧
      kept = defaultRemainder runtimeModule s declaration f.name ∧
      ∀ id ∈ defaultId? declaration, id.name?.isSome by
    obtain ⟨f, hf, hitem, hkept, hnamed⟩ := hdefault
    have hsaid : s.items = [f].map Finding.item := by
      rw [items, hform, List.map_singleton, hitem]
    refine ⟨[f], hf, ?_, ?_, fun _ => complete_of_items hform (by simp) ?_ hsaid ?_⟩
    · rw [collectedItems_default _ hform, List.map_singleton, hitem]
    · rw [remainder, hidle, hform]
      exact hkept
    · intro other hother
      cases hother
      exact hnamed
    · rw [itemCount, hform]
      rfl
  unfold defaultForm at h
  dsimp only at h
  split at h
  case h_1 d id params body isAsync generator hd =>
    obtain ⟨d', e, hd', hpure⟩ := Yields.bind_iff.1 h
    obtain ⟨rfl, rfl⟩ := Yields.pure_iff.1 hpure
    obtain ⟨f, hf, hitem, rfl, hnamed⟩ := gathered_defaultDeclaration ⟨_, rfl⟩ hd'
    unfold defaultRemainder defaultId?
    rw [hd, defaultName?_function hd]
    exact ⟨f, hf, hitem, rfl, hnamed⟩
  case h_2 d id superclass body hd =>
    obtain ⟨d', e, hd', hpure⟩ := Yields.bind_iff.1 h
    obtain ⟨rfl, rfl⟩ := Yields.pure_iff.1 hpure
    obtain ⟨f, hf, hitem, rfl, hnamed⟩ := gathered_defaultDeclaration ⟨_, rfl⟩ hd'
    unfold defaultRemainder defaultId?
    rw [hd, defaultName?_class hd]
    exact ⟨f, hf, hitem, rfl, hnamed⟩
  case h_3 hfunction hclass =>
    obtain ⟨x, e, hx, hrest⟩ := Yields.bind_iff.1 h
    obtain ⟨_, e', hadd, hpure⟩ := Yields.bind_iff.1 hrest
    obtain ⟨rfl, rfl⟩ := Yields.pure_iff.1 hpure
    rw [defaultName?_eq_none hfunction hclass]
    refine ⟨_, gathered_fresh hx hadd ⟨_, rfl⟩ rfl rfl, rfl, ?_, ?_⟩
    · symm
      unfold defaultRemainder
      dsimp only
      split
      case h_1 hd => exact (hfunction _ _ _ _ _ _ rfl hd).elim
      case h_2 hd => exact (hclass _ _ _ _ rfl hd).elim
      case h_3 => rfl
    · intro id hid
      unfold defaultId? at hid
      split at hid
      case h_1 hd =>
        obtain ⟨d, rfl, -⟩ := Option.map_eq_some_iff.1 hd
        exact (hfunction _ _ _ _ _ _ rfl hd).elim
      case h_2 hd =>
        obtain ⟨d, rfl, -⟩ := Option.map_eq_some_iff.1 hd
        exact (hclass _ _ _ _ rfl hd).elim
      case h_3 => cases hid

/-- A declaration that is published is gathered as what it says. -/
theorem gathered_exportedDeclaration {s declaration : Node} {c c' : Collection}
    (h : Yields (exportedDeclaration s declaration) c () c') :
    ∃ fs, Gathered c c' fs ∧ declaration.declarationItems = fs.map Finding.item ∧
      fs.length = declaration.declarationCount ∧ declaration.isModuleForm = false := by
  unfold exportedDeclaration at h
  unfold declarationItems declarationCount isModuleForm
  split at h
  case h_1 kind declarations hform =>
    obtain ⟨fs, hfs, hitems, hlength⟩ :=
      gathered_forM (fun _ _ _ => gathered_exportedVariable) h
    rw [hform]
    exact ⟨fs, hfs, hitems, hlength, rfl⟩
  case h_4 => exact absurd h Yields.not_throw
  all_goals
    rename_i hform
    obtain ⟨x, d, hx, hadd⟩ := Yields.bind_iff.1 h
    obtain ⟨hname, rfl⟩ := yields_identifierName hx
    rw [hform]
    refine ⟨_, gathered_add hadd rfl, ?_, rfl, rfl⟩
    simp only [hname, Option.map_some, Option.toList_some, declaredItem, List.map_singleton,
      Finding.item]

/-- An export of a declaration that is collected. -/
theorem collected_exportedForm {runtimeModule : Bool} {s d : Node} {specifiers : List Node}
    {source : Option Node} {c c' : Collection}
    (hform : s.form = .exportNamedDeclaration (some d) specifiers source)
    (hidle : isIdle s = false) (h : Yields (exportedDeclaration s d) c () c') :
    ∃ fs, Gathered c c' fs ∧
      Collected runtimeModule s fs (if runtimeModule then [d] else [s]) := by
  obtain ⟨fs, hfs, hitems, hlength, hplain⟩ := gathered_exportedDeclaration h
  refine ⟨fs, hfs, ?_, ?_, fun _ => ⟨⟨?_, ?_⟩, ?_⟩⟩
  · rw [collectedItems, items, hform]
    exact hitems
  · rw [remainder, hidle, hform]
    rfl
  · rw [items, itemCount, hform]
    show d.declarationItems.length = _
    rw [hitems, List.length_map, hlength]
  · intro _ _ _ hexport
    rw [hform] at hexport
    cases hexport
    exact hplain
  · intro _ hexport
    rw [hform] at hexport
    cases hexport

/-- An export of names is collected if each of its specifiers says something. -/
theorem collected_clause {runtimeModule : Bool} {s : Node} {specifiers : List Node}
    {source : Option Node} {fs : List Finding}
    (hform : s.form = .exportNamedDeclaration none specifiers source)
    (hidle : isIdle s = false) (hitems : s.items = fs.map Finding.item)
    (hlength : fs.length = specifiers.length) :
    Collected runtimeModule s fs (if runtimeModule then [] else [s]) := by
  refine ⟨?_, ?_, fun _ => complete_of_items hform (by simp) (by simp) hitems ?_⟩
  · rw [collectedItems, hform]
    exact hitems
  · rw [remainder, hidle, hform]
    rfl
  · rw [itemCount, hform]
    exact hlength

/-- An export of a declaration or of names that is collected. -/
theorem collected_namedForm {runtimeModule : Bool} {s : Node} {declaration : Option Node}
    {specifiers : List Node} {source : Option Node} {c c' : Collection} {kept : List Node}
    (hform : s.form = .exportNamedDeclaration declaration specifiers source)
    (hidle : isIdle s = false)
    (h : Yields (namedForm runtimeModule s declaration specifiers source) c kept c') :
    ∃ fs, Gathered c c' fs ∧ Collected runtimeModule s fs kept := by
  unfold namedForm at h
  split at h
  case h_1 d =>
    obtain ⟨_, e, hd, hpure⟩ := Yields.bind_iff.1 h
    obtain ⟨rfl, rfl⟩ := Yields.pure_iff.1 hpure
    exact collected_exportedForm hform hidle hd
  case h_2 n =>
    obtain ⟨v, d, hv, hrest⟩ := Yields.bind_iff.1 h
    obtain ⟨hsource, rfl⟩ := yields_sourceValue hv
    obtain ⟨_, e, hspecifiers, hpure⟩ := Yields.bind_iff.1 hrest
    obtain ⟨rfl, rfl⟩ := Yields.pure_iff.1 hpure
    obtain ⟨fs, hfs, hitems, hlength⟩ :=
      gathered_forM (fun _ _ _ => gathered_reexportSpecifier) hspecifiers
    refine ⟨fs, hfs, collected_clause hform hidle ?_ hlength⟩
    rw [items, hform]
    simp only [hsource, Option.elim_some]
    exact hitems
  case h_3 =>
    obtain ⟨_, e, hspecifiers, hpure⟩ := Yields.bind_iff.1 h
    obtain ⟨rfl, rfl⟩ := Yields.pure_iff.1 hpure
    obtain ⟨fs, hfs, hitems, hlength⟩ :=
      gathered_forM (fun _ _ _ => gathered_exportSpecifier) hspecifiers
    refine ⟨fs, hfs, collected_clause hform hidle ?_ hlength⟩
    rw [items, hform]
    exact hitems

/-- An export of another module that is collected. -/
theorem collected_wholeForm {runtimeModule : Bool} {s : Node} {source exported : Option Node}
    {c c' : Collection} {kept : List Node} (hform : s.form = .exportAllDeclaration source exported)
    (hidle : isIdle s = false)
    (h : Yields (wholeForm runtimeModule s source exported) c kept c') :
    ∃ fs, Gathered c c' fs ∧ Collected runtimeModule s fs kept := by
  have hcollected : ∀ {f : Finding}, s.items = [f].map Finding.item →
      Collected runtimeModule s [f] (if runtimeModule then [] else [s]) := by
    intro f hsaid
    refine ⟨?_, ?_, fun _ => complete_of_items hform (by simp) (by simp) hsaid ?_⟩
    · rw [collectedItems, hform]
      exact hsaid
    · rw [remainder, hidle, hform]
      rfl
    · rw [itemCount, hform]
      rfl
  unfold wholeForm at h
  obtain ⟨v, d, hv, hrest⟩ := Yields.bind_iff.1 h
  obtain ⟨hsource, rfl⟩ := yields_sourceValue hv
  dsimp only at hrest
  split at hrest
  case h_1 n =>
    obtain ⟨x, d, hx, hfresh⟩ := Yields.bind_iff.1 hrest
    obtain ⟨hname, rfl⟩ := yields_formName hx
    obtain ⟨y, e, hy, hadded⟩ := Yields.bind_iff.1 hfresh
    obtain ⟨_, e', hadd, hpure⟩ := Yields.bind_iff.1 hadded
    obtain ⟨rfl, rfl⟩ := Yields.pure_iff.1 hpure
    have hn : n.name? = some x := hname
    have hsaid : s.items = [Finding.reexportedWhole x v y].map Finding.item := by
      rw [items, hform]
      simp only [hsource, hn, Option.bind_some, Option.map_some, Option.toList_some,
        List.map_singleton, Finding.item]
    exact ⟨_, gathered_fresh hy hadd ⟨_, rfl⟩ rfl rfl, hcollected hsaid⟩
  case h_2 =>
    obtain ⟨y, e, hy, hadded⟩ := Yields.bind_iff.1 hrest
    obtain ⟨_, e', hadd, hpure⟩ := Yields.bind_iff.1 hadded
    obtain ⟨rfl, rfl⟩ := Yields.pure_iff.1 hpure
    have hsaid : s.items = [Finding.reexportedAll v y].map Finding.item := by
      rw [items, hform]
      simp only [hsource, Option.map_some, Option.toList_some, List.map_singleton, Finding.item]
    exact ⟨_, gathered_fresh hy hadd ⟨_, rfl⟩ rfl rfl, hcollected hsaid⟩

/-- What stays of a statement is what is left of it. -/
theorem collected_remains {runtimeModule : Bool} {s : Node} {c c' : Collection} {kept : List Node}
    (hidle : isIdle s = false) (h : Yields (remains runtimeModule s) c kept c') :
    ∃ fs, Gathered c c' fs ∧ Collected runtimeModule s fs kept := by
  unfold remains at h
  split at h
  case h_1 hform => exact collected_importForm hform hidle h
  case h_2 hform => exact collected_defaultForm hform hidle h
  case h_3 hform => exact collected_namedForm hform hidle h
  case h_4 hform => exact collected_wholeForm hform hidle h
  case h_5 himport hdefault hnamed hwhole =>
    obtain ⟨rfl, rfl⟩ := Yields.pure_iff.1 h
    have hplain : s.isModuleForm = false := by
      unfold isModuleForm
      split
      case h_1 hform => exact (himport _ _ hform).elim
      case h_2 hform => exact (hdefault _ hform).elim
      case h_3 hform => exact (hnamed _ _ _ hform).elim
      case h_4 hform => exact (hwhole _ _ hform).elim
      case h_5 => rfl
    obtain ⟨hitems, hcount⟩ := items_of_not_moduleForm hplain
    refine ⟨[], .refl c, collectedItems_eq_nil _ hitems, ?_, fun _ => ⟨⟨?_, ?_⟩, ?_⟩⟩
    · exact (remainder_of_not_moduleForm hplain hidle _ _).symm
    · rw [hitems, hcount]
      rfl
    · intro _ _ _ hform
      exact (hnamed _ _ _ hform).elim
    · intro _ hform
      exact (hdefault _ hform).elim

/-! ## Modules -/

/-- Between two states of the collector the statements `body` were collected; `found` holds the
findings of each. -/
structure CollectedBody (runtimeModule : Bool) (body : List Node) (found : List (List Finding))
    (c c' : Collection) : Prop where
  items : body.map (Node.collectedItems runtimeModule) = found.map (List.map Finding.item)
  complete : ∀ s ∈ body, s.isInspected runtimeModule = true → s.Complete
  findings : c'.findings = c.findings ++ found.flatten
  body : c'.body = c.body ++
    (List.zipWith (fun s fs => s.remainder runtimeModule (fs.map Finding.name)) body found).flatten
  names : Allocated c.names c'.names (found.flatten.filterMap Finding.newName?)

/-- Collecting one statement. -/
theorem collectedBody_statement {runtimeModule : Bool} {s : Node} {c c' : Collection}
    (h : Yields (statement runtimeModule s) c () c') :
    ∃ fs, CollectedBody runtimeModule [s] [fs] c c' := by
  unfold statement at h
  split at h
  case isTrue hidle =>
    obtain ⟨-, rfl⟩ := Yields.pure_iff.1 h
    have hs : Collected runtimeModule s [] [] := collected_idle hidle
    refine ⟨[], ?_, ?_, ?_, ?_, ?_⟩
    · rw [List.map_singleton, hs.items]
      rfl
    · intro t ht
      rw [List.mem_singleton.1 ht]
      exact hs.complete
    · simp
    · simp only [List.zipWith_cons_cons, List.zipWith_nil_left, List.flatten_singleton]
      rw [← hs.kept, List.append_nil]
    · exact .refl c.names
  case isFalse hidle =>
    obtain ⟨kept, d, hkept, hkeep⟩ := Yields.bind_iff.1 h
    obtain ⟨fs, hfs, hs⟩ := collected_remains (Bool.eq_false_iff.2 hidle) hkept
    have hstate := Yields.modify_iff.1 hkeep
    subst hstate
    refine ⟨fs, ?_, ?_, ?_, ?_, ?_⟩
    · rw [List.map_singleton, hs.items]
      rfl
    · intro t ht
      rw [List.mem_singleton.1 ht]
      exact hs.complete
    · rw [List.flatten_singleton]
      exact hfs.findings
    · show d.body ++ kept = _
      rw [hfs.body, hs.kept]
      simp
    · rw [List.flatten_singleton]
      exact hfs.names

/-- Collecting statements one after the other. -/
theorem collectedBody_forM {runtimeModule : Bool} {body : List Node} {c c' : Collection}
    (h : Yields (body.forM (statement runtimeModule)) c () c') :
    ∃ found, CollectedBody runtimeModule body found c c' := by
  induction body generalizing c with
  | nil =>
    have hstate := Yields.forM_nil_iff.1 h
    subst hstate
    exact ⟨[], rfl, by simp, by simp, by simp, .refl c.names⟩
  | cons s body ih =>
    obtain ⟨d, hs, hbody⟩ := Yields.forM_cons_iff.1 h
    obtain ⟨fs, hfs⟩ := collectedBody_statement hs
    obtain ⟨found, hfound⟩ := ih hbody
    refine ⟨fs :: found, ?_, ?_, ?_, ?_, ?_⟩
    · have hhead := List.singleton_inj.1 hfs.items
      rw [List.map_cons, List.map_cons, hfound.items, hhead]
    · intro t ht
      rcases List.mem_cons.1 ht with rfl | ht
      · exact hfs.complete t (List.mem_singleton.2 rfl)
      · exact hfound.complete t ht
    · rw [hfound.findings, hfs.findings, List.flatten_singleton, List.flatten_cons,
        List.append_assoc]
    · rw [hfound.body, hfs.body]
      simp
    · rw [List.flatten_cons, List.filterMap_append]
      have hhead := hfs.names
      rw [List.flatten_singleton] at hhead
      exact hhead.trans hfound.names

end Collecting

/-- A program is collected if its statements are, with nothing collected before. -/
theorem Collection.ofProgram_ok {runtimeModule : Bool} {names : Names} {program : Node}
    {c : Collection} (h : Collection.ofProgram runtimeModule names program = (.ok (), c)) :
    ∃ body found, program.form = .program body ∧
      Collecting.CollectedBody runtimeModule body found { names } c := by
  unfold Collection.ofProgram at h
  dsimp only at h
  split at h
  case h_1 body hform =>
    obtain ⟨found, hfound⟩ := Collecting.collectedBody_forM h
    exact ⟨body, found, hform, hfound⟩
  case h_2 => exact (Yields.not_throw h).elim

end ModuleLowering
