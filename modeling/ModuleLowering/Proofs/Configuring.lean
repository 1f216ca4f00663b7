import ModuleLowering.Config
import ModuleLowering.Proofs.Success
import Mathlib.Tactic.SplitIfs

/-!
# Accepted configurations

A configuration is accepted exactly if the value of every field is one that the field admits. The
value is what is given over the options unless that is null, else what the options say, else the
default; of several entries of one name the last one counts, and entries of other names count for
nothing. Everything else is rejected, with a message unless the external pattern has a number that
is out of range or flags that clash.
-/

set_option autoImplicit false

namespace ModuleLowering

namespace Config

/-! ## The values of the fields -/

namespace Field

/-- The name of a field among the options. -/
def option : Field → Text
  | moduleId => "moduleId"
  | runtimeModule => "runtimeModule"
  | externalPattern => "externalPattern"
  | importPaths => "importPaths"

/-- The name of a field among the values that are given over the options. -/
def override : Field → Text
  | moduleId => "module_id"
  | runtimeModule => "runtime_module"
  | externalPattern => "external_pattern"
  | importPaths => "import_paths"

/-- The value of a field of which nothing is said. -/
def default? : Field → Option Json
  | moduleId => none
  | runtimeModule => some (.boolean false)
  | externalPattern | importPaths => some .null

/-- The values that a field may have. -/
def Admits : Field → Json → Prop
  | moduleId, value => ∃ t, value = .text t ∧ t ≠ []
  | runtimeModule, value => ∃ b, value = .boolean b
  | externalPattern, value =>
    value = .null ∨ ∃ t pattern, value = .text t ∧ Pattern.ofText t = .ok pattern
  | importPaths, value =>
    value = .null ∨ ∃ members, value = .object members ∧ ∀ m ∈ members, ∃ path, m.2 = .text path

theorem ofOption?_eq_some {name : Text} {f : Field} :
    ofOption? name = some f ↔ name = f.option := by
  constructor
  · intro h
    unfold ofOption? at h
    split_ifs at h with h₁ h₂ h₃ h₄
    all_goals
      cases h
      assumption
  · rintro rfl
    cases f <;> decide

theorem ofOverride?_eq_some {name : Text} {f : Field} :
    ofOverride? name = some f ↔ name = f.override := by
  constructor
  · intro h
    unfold ofOverride? at h
    split_ifs at h with h₁ h₂ h₃ h₄
    all_goals
      cases h
      assumption
  · rintro rfl
    cases f <;> decide

theorem option_inj {f g : Field} (h : f.option = g.option) : f = g := by
  have hf := ofOption?_eq_some.2 h
  rw [ofOption?_eq_some.2 rfl] at hf
  exact Option.some.inj hf

theorem override_inj {f g : Field} (h : f.override = g.override) : f = g := by
  have hf := ofOverride?_eq_some.2 h
  rw [ofOverride?_eq_some.2 rfl] at hf
  exact Option.some.inj hf

end Field

/-- The value of a name; of several entries the last one counts. -/
def lastOf? (name : Text) (entries : List (Text × Json)) : Option Json :=
  Json.lookUp? name entries.reverse

/-- The value that is given for a field over the options, unless it is null. -/
def overriding? (overrides : List (Text × Json)) (f : Field) : Option Json :=
  lastOf? f.override (overrides.filter fun o => !isNull o.2)

/-- The value that is given for a field. -/
def given? (members overrides : List (Text × Json)) (f : Field) : Option Json :=
  (overriding? overrides f).or (lastOf? f.option members)

/-- The value that a field is to have. -/
def effective? (members overrides : List (Text × Json)) (f : Field) : Option Json :=
  (given? members overrides f).or f.default?

/-- A table of paths as a value. -/
def pathsValue (paths : Option (List (Text × Text))) : Json :=
  (paths.map fun entries => Json.object (entries.map fun p => (p.1, .text p.2))).getD .null

/-- What a configuration holds in a field, as a value. -/
def held (c : Config) : Field → Json
  | .moduleId => .text c.moduleId
  | .runtimeModule => .boolean c.runtimeModule
  | .externalPattern => Json.ofText? (c.external.map (·.source))
  | .importPaths => pathsValue c.importPaths

/-- The external pattern of a configuration is that of its text. -/
def Compiled (c : Config) : Prop :=
  ∀ e, c.external = some e → Pattern.ofText e.source = .ok e.pattern

theorem lastOf?_cons (name : Text) (entry : Text × Json) (entries : List (Text × Json)) :
    lastOf? name (entry :: entries) =
      (lastOf? name entries).or (if entry.1 = name then some entry.2 else none) := by
  unfold lastOf? Json.lookUp?
  rw [List.reverse_cons, List.find?_append]
  cases List.find? (fun e => decide (e.1 = name)) entries.reverse with
  | some found => rfl
  | none =>
    by_cases h : entry.1 = name
    · simp [h]
    · simp [h]

/-! ## Gathering the values -/

namespace Values

/-- The value of a field, if it is given. -/
def get (v : Values) : Field → Option Json
  | .moduleId => v.moduleId
  | .runtimeModule => v.runtimeModule
  | .externalPattern => v.externalPattern
  | .importPaths => v.importPaths

/-- The values that a function gives. -/
def ofFields (value? : Field → Option Json) : Values :=
  ⟨value? .moduleId, value? .runtimeModule, value? .externalPattern, value? .importPaths⟩

theorem get_ofFields (value? : Field → Option Json) (f : Field) :
    (ofFields value?).get f = value? f := by
  cases f <;> rfl

theorem eq_ofFields {v : Values} {value? : Field → Option Json} (h : ∀ f, v.get f = value? f) :
    v = ofFields value? := by
  cases v
  rw [ofFields, ← h, ← h, ← h, ← h]
  rfl

theorem get_set (v : Values) (f g : Field) (value : Json) :
    (v.set f value).get g = if f = g then some value else v.get g := by
  cases f <;> cases g <;> rfl

end Values

/-- Adding options never fails, and the last value of each name counts. -/
theorem foldlM_addOption (members : List (Text × Json)) (v : Values) (log : List Event) :
    ∃ v' log', Yields (members.foldlM addOption v) log v' log' ∧
      ∀ f, v'.get f = (lastOf? f.option members).or (v.get f) := by
  induction members generalizing v log with
  | nil => exact ⟨v, log, Yields.pure_iff.2 ⟨rfl, rfl⟩, fun f => rfl⟩
  | cons entry members ih =>
    obtain ⟨v₁, log₁, hstep, hv₁⟩ : ∃ v₁ log₁, Yields (addOption v entry) log v₁ log₁ ∧
        ∀ f, v₁.get f = (if entry.1 = f.option then some entry.2 else none).or (v.get f) := by
      cases hname : Field.ofOption? entry.1 with
      | none =>
        have hother (f : Field) : entry.1 ≠ f.option := by
          intro h
          rw [Field.ofOption?_eq_some.2 h] at hname
          cases hname
        refine ⟨v, log ++ _, by rw [addOption, hname]; rfl, fun f => ?_⟩
        rw [if_neg (hother f), Option.none_or]
      | some g =>
        refine ⟨v.set g entry.2, log, by rw [addOption, hname]; rfl, fun f => ?_⟩
        rw [Values.get_set, Field.ofOption?_eq_some.1 hname]
        by_cases h : g = f
        · rw [if_pos h, if_pos (by rw [h]), Option.some_or]
        · rw [if_neg h, if_neg (fun k => h (Field.option_inj k)), Option.none_or]
    obtain ⟨v₂, log₂, hrest, hv₂⟩ := ih v₁ log₁
    refine ⟨v₂, log₂, by rw [List.foldlM_cons]; exact Yields.bind_iff.2 ⟨v₁, log₁, hstep, hrest⟩,
      fun f => ?_⟩
    rw [hv₂, hv₁, lastOf?_cons, Option.or_assoc]

/-- Every value that is given over the options is that of a field. -/
def Known (overrides : List (Text × Json)) : Prop :=
  ∀ o ∈ overrides, ∃ f : Field, o.1 = f.override

theorem addOverride_known {entry : Text × Json} {g : Field} (h : entry.1 = g.override) (v : Values)
    (log : List Event) : Yields (addOverride v entry) log
      (if isNull entry.2 then v else v.set g entry.2) log := by
  unfold Yields
  rw [addOverride, Field.ofOverride?_eq_some.2 h]
  rfl

theorem addOverride_unknown {entry : Text × Json} (h : ∀ f : Field, entry.1 ≠ f.override)
    (v : Values) (log : List Event) :
    (ExceptT.run (addOverride v entry)).run log = (.error (.unknownField entry.1), log) := by
  have hname : Field.ofOverride? entry.1 = none :=
    Option.eq_none_iff_forall_ne_some.2 fun f hf => h f (Field.ofOverride?_eq_some.1 hf)
  rw [addOverride, hname]
  rfl

/-- An override counts if it comes last and is not null. -/
theorem overriding?_cons {entry : Text × Json} {g : Field} (h : entry.1 = g.override)
    (overrides : List (Text × Json)) (v : Values) (f : Field) :
    (overriding? (entry :: overrides) f).or (v.get f) = (overriding? overrides f).or
      ((if isNull entry.2 then v else v.set g entry.2).get f) := by
  unfold overriding?
  by_cases hnull : isNull entry.2
  · rw [if_pos hnull, List.filter_cons_of_neg (by simp [hnull])]
  · rw [if_neg hnull, List.filter_cons_of_pos (by simp [hnull]), lastOf?_cons, Option.or_assoc,
      Values.get_set]
    by_cases hfield : g = f
    · rw [if_pos hfield, if_pos (by rw [h, hfield]), Option.some_or]
    · rw [if_neg hfield, if_neg fun k => hfield (Field.override_inj (h ▸ k)), Option.none_or]

/-- Overrides of fields are added, each over what was there. -/
theorem foldlM_addOverride {overrides : List (Text × Json)} (h : Known overrides) (v : Values)
    (log : List Event) : ∃ v', Yields (overrides.foldlM addOverride v) log v' log ∧
      ∀ f, v'.get f = (overriding? overrides f).or (v.get f) := by
  induction overrides generalizing v with
  | nil => exact ⟨v, Yields.pure_iff.2 ⟨rfl, rfl⟩, fun f => rfl⟩
  | cons entry overrides ih =>
    obtain ⟨⟨g, hg⟩, hrest⟩ := List.forall_mem_cons.1 h
    obtain ⟨v', hrun, hv'⟩ := ih hrest (if isNull entry.2 then v else v.set g entry.2)
    refine ⟨v', ?_, fun f => by rw [hv', overriding?_cons hg]⟩
    rw [List.foldlM_cons]
    exact Yields.bind_iff.2 ⟨_, log, addOverride_known hg v log, hrun⟩

/-- The first override of another name makes everything fail. -/
theorem foldlM_addOverride_unknown {overrides : List (Text × Json)} (h : ¬ Known overrides) :
    ∃ name, ∀ v log, (ExceptT.run (overrides.foldlM addOverride v)).run log =
      (.error (.unknownField name), log) := by
  induction overrides with
  | nil => exact absurd nofun h
  | cons entry overrides ih =>
    by_cases hentry : ∃ g : Field, entry.1 = g.override
    · obtain ⟨g, hg⟩ := hentry
      obtain ⟨name, hname⟩ := ih fun hrest => h (List.forall_mem_cons.2 ⟨⟨g, hg⟩, hrest⟩)
      refine ⟨name, fun v log => ?_⟩
      rw [List.foldlM_cons, Yields.run_bind, addOverride_known hg v log]
      exact hname _ log
    · refine ⟨entry.1, fun v log => ?_⟩
      rw [List.foldlM_cons, Yields.run_bind, addOverride_unknown (fun f hf => hentry ⟨f, hf⟩)]

/-! ## Checking the values -/

section

variable {ε α β : Type} {x : Except ε α} {f : α → Except ε β}

theorem bind_eq_ok {b : β} : x >>= f = .ok b ↔ ∃ a, x = .ok a ∧ f a = .ok b := by
  cases x with
  | error e => exact ⟨nofun, fun ⟨a, ha, _⟩ => nomatch ha⟩
  | ok a => exact ⟨fun h => ⟨a, rfl, h⟩, fun ⟨a', ha, h⟩ => by cases ha; exact h⟩

theorem bind_eq_error {e : ε} :
    x >>= f = .error e ↔ x = .error e ∨ ∃ a, x = .ok a ∧ f a = .error e := by
  cases x with
  | error e' =>
    exact ⟨fun h => by cases h; exact .inl rfl,
      fun h => h.elim (fun h => by cases h; rfl) fun ⟨a, ha, _⟩ => nomatch ha⟩
  | ok a => exact ⟨fun h => .inr ⟨a, rfl, h⟩, fun h => h.elim nofun fun ⟨a', ha, h⟩ => by
      cases ha
      exact h⟩

end

theorem moduleIdOf_eq_ok {value : Json} {t : Text} :
    moduleIdOf value = .ok t ↔ value = .text t ∧ t ≠ [] := by
  unfold moduleIdOf
  split
  case h_1 u =>
    cases u with
    | nil => exact ⟨nofun, fun h => absurd (Json.text.inj h.1).symm h.2⟩
    | cons c u =>
      constructor
      · intro h
        cases h
        exact ⟨rfl, nofun⟩
      · rintro ⟨h, -⟩
        cases h
        rfl
  case h_2 hother => exact ⟨nofun, fun h => absurd h.1 (hother t)⟩

theorem runtimeModuleOf_eq_ok {value : Json} {b : Bool} :
    runtimeModuleOf value = .ok b ↔ value = .boolean b := by
  unfold runtimeModuleOf
  split
  case h_1 b' => rw [Except.ok.injEq, Json.boolean.injEq]
  case h_2 hother => exact ⟨nofun, fun h => absurd h (hother b)⟩

theorem importPathOf_eq_ok {entry : Text × Json} {path : Text × Text} :
    importPathOf entry = .ok path ↔ entry = (path.1, .text path.2) := by
  obtain ⟨name, value⟩ := entry
  unfold importPathOf
  split
  case h_1 t hvalue =>
    cases hvalue
    constructor
    · intro h
      cases h
      rfl
    · intro h
      cases h
      rfl
  case h_2 hother => exact ⟨nofun, fun h => absurd (congrArg Prod.snd h) (hother path.2)⟩

theorem mapM_importPathOf_eq_ok {members : List (Text × Json)} {paths : List (Text × Text)} :
    members.mapM importPathOf = .ok paths ↔ members = paths.map fun p => (p.1, .text p.2) := by
  induction members generalizing paths with
  | nil =>
    cases paths with
    | nil => exact ⟨fun _ => rfl, fun _ => rfl⟩
    | cons path paths => exact ⟨nofun, nofun⟩
  | cons m members ih =>
    rw [List.mapM_cons]
    constructor
    · intro h
      obtain ⟨path, hpath, h⟩ := bind_eq_ok.1 h
      obtain ⟨rest, hrest, h⟩ := bind_eq_ok.1 h
      cases h
      rw [List.map_cons, ← ih.1 hrest, ← importPathOf_eq_ok.1 hpath]
    · intro h
      cases paths with
      | nil => cases h
      | cons path paths =>
        rw [List.map_cons, List.cons.injEq] at h
        rw [importPathOf_eq_ok.2 h.1, ih.2 h.2]
        rfl

theorem importPathsOf_eq_ok {value : Json} {paths : Option (List (Text × Text))} :
    importPathsOf value = .ok paths ↔ value = pathsValue paths := by
  unfold importPathsOf
  split
  case h_1 =>
    cases paths with
    | none => exact ⟨fun _ => rfl, fun _ => rfl⟩
    | some entries => exact ⟨nofun, nofun⟩
  case h_2 members =>
    cases hmembers : members.mapM importPathOf with
    | error e =>
      refine ⟨nofun, fun h => ?_⟩
      cases paths with
      | none => cases h
      | some entries =>
        rw [mapM_importPathOf_eq_ok.2 (Json.object.inj h)] at hmembers
        cases hmembers
    | ok entries =>
      rw [mapM_importPathOf_eq_ok.1 hmembers]
      constructor
      · intro h
        cases h
        rfl
      · intro h
        cases paths with
        | none => cases h
        | some entries' =>
          have hentries := mapM_importPathOf_eq_ok.2 (Json.object.inj h)
          rw [mapM_importPathOf_eq_ok.2 rfl] at hentries
          cases hentries
          rfl
  case h_3 hnull hobject =>
    refine ⟨nofun, fun h => ?_⟩
    cases paths with
    | none => exact absurd h hnull
    | some entries => exact absurd h (hobject _)

theorem externalOf_eq_ok {value : Json} {external : Option ExternalPattern} :
    externalOf value = .ok external ↔ value = Json.ofText? (external.map (·.source)) ∧
      ∀ e, external = some e → Pattern.ofText e.source = .ok e.pattern := by
  unfold externalOf
  split
  case h_1 =>
    cases external with
    | none => exact ⟨fun _ => ⟨rfl, nofun⟩, fun _ => rfl⟩
    | some e => exact ⟨nofun, nofun⟩
  case h_2 source =>
    cases hpattern : Pattern.ofText source with
    | error why =>
      refine ⟨nofun, fun ⟨hsource, hcompiled⟩ => ?_⟩
      cases external with
      | none => cases hsource
      | some e =>
        cases hsource
        rw [hcompiled e rfl] at hpattern
        cases hpattern
    | ok pattern =>
      constructor
      · intro h
        cases h
        refine ⟨rfl, fun e he => ?_⟩
        cases he
        exact hpattern
      · rintro ⟨hsource, hcompiled⟩
        cases external with
        | none => cases hsource
        | some e =>
          cases hsource
          have he := hcompiled e rfl
          rw [hpattern] at he
          cases he
          rfl
  case h_3 hnull htext =>
    refine ⟨nofun, fun ⟨hsource, _⟩ => ?_⟩
    cases external with
    | none => exact absurd hsource hnull
    | some e => exact absurd hsource (htext _)

/-- The identity of a module, which has to be given. -/
def requiredId (value : Option Json) : Except ConfigError Text :=
  match value with
  | none => .error .moduleIdMissing
  | some value => moduleIdOf value

theorem requiredId_eq_ok {value : Option Json} {t : Text} :
    requiredId value = .ok t ↔ value = some (.text t) ∧ t ≠ [] := by
  cases value with
  | none => exact ⟨nofun, nofun⟩
  | some value => rw [requiredId, moduleIdOf_eq_ok, Option.some.injEq]

theorem ofValues_eq (v : Values) :
    ofValues v = do
      let id ← requiredId v.moduleId
      let runtimeModule ← (v.runtimeModule.map runtimeModuleOf).getD (.ok false)
      let importPaths ← importPathsOf (v.importPaths.getD .null)
      let external ← externalOf (v.externalPattern.getD .null)
      return ⟨id, runtimeModule, external, importPaths⟩ := by
  unfold ofValues
  cases v.moduleId <;> rfl

/-- The checks of the fields, each on its own value. -/
theorem ofValues_eq_ok_iff_checks {v : Values} {c : Config} :
    ofValues v = .ok c ↔ requiredId v.moduleId = .ok c.moduleId ∧
      (v.runtimeModule.map runtimeModuleOf).getD (.ok false) = .ok c.runtimeModule ∧
      importPathsOf (v.importPaths.getD .null) = .ok c.importPaths ∧
      externalOf (v.externalPattern.getD .null) = .ok c.external := by
  rw [ofValues_eq]
  constructor
  · intro h
    obtain ⟨id, hid, h⟩ := bind_eq_ok.1 h
    obtain ⟨mode, hmode, h⟩ := bind_eq_ok.1 h
    obtain ⟨paths, hpaths, h⟩ := bind_eq_ok.1 h
    obtain ⟨external, hexternal, h⟩ := bind_eq_ok.1 h
    cases h
    exact ⟨hid, hmode, hpaths, hexternal⟩
  · rintro ⟨hid, hmode, hpaths, hexternal⟩
    rw [hid, hmode, hpaths, hexternal]
    rfl

/-- A configuration is made of values exactly if it holds them, or the defaults in their place. -/
theorem ofValues_eq_ok_iff {v : Values} {c : Config} :
    ofValues v = .ok c ↔ c.moduleId ≠ [] ∧ c.Compiled ∧
      ∀ f, (v.get f).or f.default? = some (c.held f) := by
  have hmode : (v.runtimeModule.map runtimeModuleOf).getD (.ok false) = .ok c.runtimeModule ↔
      v.runtimeModule.or (some (.boolean false)) = some (.boolean c.runtimeModule) := by
    cases v.runtimeModule with
    | none => simp
    | some value => simp [runtimeModuleOf_eq_ok]
  have hgetD (value : Option Json) (w : Json) :
      value.getD .null = w ↔ value.or (some .null) = some w := by
    cases value <;> simp
  rw [ofValues_eq_ok_iff_checks, hmode, importPathsOf_eq_ok, externalOf_eq_ok, hgetD, hgetD]
  constructor
  · rintro ⟨hid, hmode, hpaths, hexternal, hcompiled⟩
    obtain ⟨hid, hne⟩ := requiredId_eq_ok.1 hid
    refine ⟨hne, hcompiled, fun f => ?_⟩
    cases f with
    | moduleId => exact congrArg (Option.or · none) hid
    | runtimeModule => exact hmode
    | externalPattern => exact hexternal
    | importPaths => exact hpaths
  · rintro ⟨hne, hcompiled, hheld⟩
    have hid : v.moduleId = some (.text c.moduleId) := by
      rw [← Option.or_none (o := v.moduleId)]
      exact hheld .moduleId
    exact ⟨requiredId_eq_ok.2 ⟨hid, hne⟩, hheld .runtimeModule, hheld .importPaths,
      hheld .externalPattern, hcompiled⟩

/-- What a configuration holds is admitted by its field. -/
theorem admits_held {c : Config} (hne : c.moduleId ≠ []) (hcompiled : c.Compiled) (f : Field) :
    f.Admits (c.held f) := by
  cases f with
  | moduleId => exact ⟨_, rfl, hne⟩
  | runtimeModule => exact ⟨_, rfl⟩
  | externalPattern =>
    cases hexternal : c.external with
    | none => exact .inl (by rw [held, hexternal]; rfl)
    | some e =>
      exact .inr ⟨e.source, e.pattern, by rw [held, hexternal]; rfl, hcompiled e hexternal⟩
  | importPaths =>
    cases hpaths : c.importPaths with
    | none => exact .inl (by rw [held, hpaths]; rfl)
    | some paths =>
      refine .inr ⟨_, by rw [held, hpaths]; rfl, fun m hm => ?_⟩
      obtain ⟨path, -, rfl⟩ := List.mem_map.1 hm
      exact ⟨path.2, rfl⟩

/-- Values that the fields admit are held by a configuration. -/
theorem exists_held {value : Field → Json} (h : ∀ f : Field, f.Admits (value f)) :
    ∃ c : Config, c.moduleId ≠ [] ∧ c.Compiled ∧ ∀ f, value f = c.held f := by
  obtain ⟨id, hid, hne⟩ := h .moduleId
  obtain ⟨mode, hmode⟩ := h .runtimeModule
  obtain ⟨external, hexternal, hcompiled⟩ : ∃ external : Option ExternalPattern,
      value .externalPattern = Json.ofText? (external.map (·.source)) ∧
      ∀ e, external = some e → Pattern.ofText e.source = .ok e.pattern := by
    obtain hnull | ⟨source, pattern, hsource, hpattern⟩ := h .externalPattern
    · exact ⟨none, hnull, nofun⟩
    · refine ⟨some ⟨source, pattern⟩, hsource, fun e he => ?_⟩
      cases he
      exact hpattern
  obtain ⟨paths, hpaths⟩ : ∃ paths, value .importPaths = pathsValue paths := by
    obtain hnull | ⟨members, hmembers, htexts⟩ := h .importPaths
    · exact ⟨none, hnull⟩
    · refine ⟨some (members.map fun m => (m.1, (Json.text? m.2).getD [])), hmembers.trans ?_⟩
      have hsame : (members.map fun m => (m.1, Json.text ((Json.text? m.2).getD []))) = members := by
        refine (List.map_congr_left fun m hm => ?_).trans (List.map_id members)
        obtain ⟨path, hpath⟩ := htexts m hm
        refine Prod.ext rfl ?_
        show Json.text ((Json.text? m.2).getD []) = m.2
        rw [hpath]
        rfl
      rw [pathsValue, Option.map_some, Option.getD_some, List.map_map]
      exact congrArg Json.object hsame.symm
  refine ⟨⟨id, mode, external, paths⟩, hne, hcompiled, fun f => ?_⟩
  cases f with
  | moduleId => exact hid
  | runtimeModule => exact hmode
  | externalPattern => exact hexternal
  | importPaths => exact hpaths

/-! ## The configuration of options -/

theorem requiredId_message {value : Option Json} {e : ConfigError} (h : requiredId value = .error e) :
    e.message? ≠ none := by
  unfold requiredId moduleIdOf at h
  split at h
  case h_1 => cases h; nofun
  case h_2 =>
    split at h
    case h_1 =>
      split at h
      · cases h; nofun
      · cases h
    case h_2 => cases h; nofun

theorem runtimeModuleOf_message {value : Json} {e : ConfigError}
    (h : runtimeModuleOf value = .error e) : e.message? ≠ none := by
  unfold runtimeModuleOf at h
  split at h
  · cases h
  · cases h; nofun

theorem mapM_importPathOf_message {members : List (Text × Json)} {e : ConfigError}
    (h : members.mapM importPathOf = .error e) : e.message? ≠ none := by
  induction members with
  | nil => cases h
  | cons m members ih =>
    rw [List.mapM_cons] at h
    obtain hm | ⟨path, -, h⟩ := bind_eq_error.1 h
    · unfold importPathOf at hm
      split at hm
      · cases hm
      · cases hm; nofun
    · obtain hrest | ⟨rest, -, h⟩ := bind_eq_error.1 h
      · exact ih hrest
      · cases h

theorem importPathsOf_message {value : Json} {e : ConfigError} (h : importPathsOf value = .error e) :
    e.message? ≠ none := by
  unfold importPathsOf at h
  split at h
  case h_1 => cases h
  case h_2 members =>
    cases hmembers : members.mapM importPathOf with
    | ok paths =>
      rw [hmembers] at h
      cases h
    | error e' =>
      rw [hmembers] at h
      cases h
      exact mapM_importPathOf_message hmembers
  case h_3 => cases h; nofun

theorem externalOf_message {value : Json} {e : ConfigError} (h : externalOf value = .error e)
    (hsilent : e.message? = none) :
    ∃ source why, value = .text source ∧ Pattern.ofText source = .error why ∧
      why.message? source = none ∧ e = .externalPatternMalformed source why := by
  unfold externalOf at h
  split at h
  case h_1 => cases h
  case h_2 source =>
    cases hpattern : Pattern.ofText source with
    | ok pattern =>
      rw [hpattern] at h
      cases h
    | error why =>
      rw [hpattern] at h
      cases h
      exact ⟨source, why, rfl, hpattern, Option.map_eq_none_iff.1 hsilent, rfl⟩
  case h_3 =>
    cases h
    cases hsilent

/-- Only of some patterns it is not said why they are rejected. -/
theorem ofValues_silent {v : Values} {e : ConfigError} (h : ofValues v = .error e)
    (hsilent : e.message? = none) :
    ∃ source why, v.externalPattern = some (.text source) ∧ Pattern.ofText source = .error why ∧
      why.message? source = none ∧ e = .externalPatternMalformed source why := by
  rw [ofValues_eq] at h
  obtain hid | ⟨id, -, h⟩ := bind_eq_error.1 h
  · exact absurd hsilent (requiredId_message hid)
  obtain hmode | ⟨mode, -, h⟩ := bind_eq_error.1 h
  · cases hvalue : v.runtimeModule with
    | none =>
      rw [hvalue] at hmode
      cases hmode
    | some value =>
      rw [hvalue] at hmode
      exact absurd hsilent (runtimeModuleOf_message hmode)
  obtain hpaths | ⟨paths, -, h⟩ := bind_eq_error.1 h
  · exact absurd hsilent (importPathsOf_message hpaths)
  obtain hexternal | ⟨external, -, h⟩ := bind_eq_error.1 h
  · obtain ⟨source, why, hsource, hwhy, hnone, he⟩ := externalOf_message hexternal hsilent
    refine ⟨source, why, ?_, hwhy, hnone, he⟩
    cases hvalue : v.externalPattern with
    | none =>
      rw [hvalue] at hsource
      cases hsource
    | some value =>
      rw [hvalue] at hsource
      exact congrArg some hsource
  · cases h

theorem result_ofOptions (members overrides : List (Text × Json)) :
    ∃ v log, (∀ f, v.get f = lastOf? f.option members) ∧
      (ofOptions (.object members) overrides).result = (ExceptT.run
        (overrides.foldlM addOverride v >>= fun w => Logged.ofExcept (ofValues w))).run log := by
  obtain ⟨v, log, hrun, hv⟩ := foldlM_addOption members {} []
  refine ⟨v, log, fun f => ?_, ?_⟩
  · have hnone : Values.get {} f = none := by cases f <;> rfl
    rw [hv, hnone, Option.or_none]
  · show (ExceptT.run (members.foldlM addOption {} >>= fun v =>
      overrides.foldlM addOverride v >>= fun w => Logged.ofExcept (ofValues w))).run [] = _
    rw [Yields.run_bind, hrun]

/-- If every override is that of a field, the values that are given are checked. -/
theorem result_ofOptions_known (members : List (Text × Json)) {overrides : List (Text × Json)}
    (h : Known overrides) : (ofOptions (.object members) overrides).result.1 =
      ofValues (.ofFields (given? members overrides)) := by
  obtain ⟨v, log, hv, hresult⟩ := result_ofOptions members overrides
  obtain ⟨v', hrun, hv'⟩ := foldlM_addOverride h v log
  have hvalues : v' = .ofFields (given? members overrides) :=
    Values.eq_ofFields fun f => by rw [hv', hv, given?]
  rw [hresult, Yields.run_bind, hrun, ← hvalues]
  rfl

/-- An override of another name is rejected, whatever the options are. -/
theorem result_ofOptions_unknown {overrides : List (Text × Json)} (h : ¬ Known overrides) :
    ∃ name, ∀ members,
      (ofOptions (.object members) overrides).result.1 = .error (.unknownField name) := by
  obtain ⟨name, hname⟩ := foldlM_addOverride_unknown h
  refine ⟨name, fun members => ?_⟩
  obtain ⟨v, log, -, hresult⟩ := result_ofOptions members overrides
  rw [hresult, Yields.run_bind, hname]

/-- Options and overrides are either gathered and checked, or rejected with a message. -/
theorem result_ofOptions_cases (options : Json) (overrides : List (Text × Json)) :
    (∃ members, options = .object members ∧ Known overrides ∧
      (ofOptions options overrides).result.1 =
        ofValues (.ofFields (given? members overrides))) ∨
    ((∀ members, options = .object members → ¬ Known overrides) ∧
      ∃ e, (ofOptions options overrides).result.1 = .error e ∧ e.message? ≠ none) := by
  cases options
  case object members =>
    by_cases hknown : Known overrides
    · exact .inl ⟨members, rfl, hknown, result_ofOptions_known members hknown⟩
    · obtain ⟨name, hname⟩ := result_ofOptions_unknown hknown
      exact .inr ⟨fun _ _ => hknown, _, hname members, nofun⟩
  all_goals exact .inr ⟨nofun, .optionsNotObject, rfl, nofun⟩

/-- A configuration is made of options and overrides exactly if the options are an object, every
override is that of a field, and the configuration holds the values that the fields are to have. -/
theorem ofOptions_eq_ok_iff {options : Json} {overrides : List (Text × Json)} {c : Config} :
    (ofOptions options overrides).result.1 = .ok c ↔
      ∃ members, options = .object members ∧ Known overrides ∧ c.moduleId ≠ [] ∧ c.Compiled ∧
        ∀ f, effective? members overrides f = some (c.held f) := by
  obtain ⟨members, rfl, hknown, hresult⟩ | ⟨hnot, e, he, -⟩ :=
    result_ofOptions_cases options overrides
  · rw [hresult, ofValues_eq_ok_iff]
    constructor
    · rintro ⟨hne, hcompiled, hheld⟩
      refine ⟨members, rfl, hknown, hne, hcompiled, fun f => ?_⟩
      rw [effective?, ← hheld f, Values.get_ofFields]
    · rintro ⟨members', h, -, hne, hcompiled, hheld⟩
      cases h
      refine ⟨hne, hcompiled, fun f => ?_⟩
      rw [Values.get_ofFields]
      exact hheld f
  · rw [he]
    exact ⟨nofun, fun ⟨members, h, hknown, _⟩ => absurd hknown (hnot members h)⟩

/-- Options and overrides are accepted exactly if the options are an object, every override is that
of a field, and every field is to have a value that it admits. -/
theorem exists_ofOptions_iff {options : Json} {overrides : List (Text × Json)} :
    (∃ c, (ofOptions options overrides).result.1 = .ok c) ↔
      ∃ members, options = .object members ∧ Known overrides ∧
        ∀ f : Field, ∃ value, effective? members overrides f = some value ∧ f.Admits value := by
  constructor
  · rintro ⟨c, hc⟩
    obtain ⟨members, hmembers, hknown, hne, hcompiled, hheld⟩ := ofOptions_eq_ok_iff.1 hc
    exact ⟨members, hmembers, hknown, fun f => ⟨_, hheld f, admits_held hne hcompiled f⟩⟩
  · rintro ⟨members, hmembers, hknown, hadmits⟩
    obtain ⟨value, hvalue⟩ := Classical.skolem.1 hadmits
    obtain ⟨c, hne, hcompiled, hheld⟩ := exists_held fun f => (hvalue f).2
    refine ⟨c, ofOptions_eq_ok_iff.2 ⟨members, hmembers, hknown, hne, hcompiled, fun f => ?_⟩⟩
    rw [(hvalue f).1, hheld f]

/-- Every rejection has a message, except where the text that the external pattern is to have is
rejected without one. -/
theorem ofOptions_silent {options : Json} {overrides : List (Text × Json)} {e : ConfigError}
    (h : (ofOptions options overrides).result.1 = .error e) (hsilent : e.message? = none) :
    ∃ members source why, options = .object members ∧
      effective? members overrides .externalPattern = some (.text source) ∧
      Pattern.ofText source = .error why ∧ why.message? source = none ∧
      e = .externalPatternMalformed source why := by
  obtain ⟨members, rfl, -, hresult⟩ | ⟨-, e', he', hsays⟩ :=
    result_ofOptions_cases options overrides
  · rw [hresult] at h
    obtain ⟨source, why, hsource, hwhy, hnone, he⟩ := ofValues_silent h hsilent
    have hgiven : given? members overrides .externalPattern = some (.text source) := hsource
    exact ⟨members, source, why, rfl, by rw [effective?, hgiven, Option.some_or], hwhy, hnone, he⟩
  · rw [he'] at h
    cases h
    exact absurd hsilent hsays

/-- A count that fits no machine word is rejected so. -/
example : (match (ofOptions (.object [("moduleId", .text "m"),
      ("externalPattern", .text "a\x7b99999999999999999999\x7d")]) []).result.1 with
    | .ok _ => false
    | .error e => e = .externalPatternMalformed "a\x7b99999999999999999999\x7d" .countOutOfRange ∧
      e.message? = none) = true := by
  decide +kernel

theorem lastOf?_filter {name : Text} {keeps : Text × Json → Bool} {entries : List (Text × Json)}
    (h : ∀ entry ∈ entries, entry.1 = name → keeps entry = true) :
    lastOf? name (entries.filter keeps) = lastOf? name entries := by
  induction entries with
  | nil => rfl
  | cons entry entries ih =>
    have hrest := ih fun entry' hentry' => h entry' (List.mem_cons_of_mem _ hentry')
    rw [lastOf?_cons, ← hrest]
    by_cases hkeeps : keeps entry
    · rw [List.filter_cons_of_pos hkeeps, lastOf?_cons]
    · have hother : entry.1 ≠ name := fun hname => hkeeps (h entry List.mem_cons_self hname)
      rw [List.filter_cons_of_neg hkeeps, if_neg hother, Option.or_none]

/-- Options of other names count for nothing. -/
theorem ofOptions_filter (members overrides : List (Text × Json)) :
    let known := members.filter fun m => (Field.ofOption? m.1).isSome
    (ofOptions (.object known) overrides).result.1 =
      (ofOptions (.object members) overrides).result.1 := by
  intro known
  by_cases hknown : Known overrides
  · rw [result_ofOptions_known _ hknown, result_ofOptions_known _ hknown]
    congr 2
    funext f
    unfold given?
    rw [lastOf?_filter fun m _ hname => by rw [Field.ofOption?_eq_some.2 hname]; rfl]
  · obtain ⟨name, hname⟩ := result_ofOptions_unknown hknown
    rw [hname, hname]

end Config

end ModuleLowering
