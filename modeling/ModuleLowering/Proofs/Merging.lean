import Mathlib.Data.List.Induction
import ModuleLowering.CommandLine.Run
import ModuleLowering.Proofs.Members

/-!
# Merging flags and options

The command line gives a configuration by its flags and by the options of a file. A flag that is
given counts, and the last one of its kind; else the option does; and a module that neither names is
named by the path of its source. Tables of paths are merged: for each specifier the last flag
counts, else the table of the file. A flag that gives no path is rejected.
-/

set_option autoImplicit false

namespace ModuleLowering.CommandLine

/-! ## Flags -/

/-- The value of the last flag of a kind. -/
def lastValue? (f : Flag) (flags : List (Flag × Text)) : Option Text :=
  (flags.reverse.find? (·.1 = f)).map (·.2)

/-- The values of the flags of a kind, in order. -/
def valuesOf (f : Flag) (flags : List (Flag × Text)) : List Text :=
  (flags.filter (·.1 = f)).map (·.2)

/-- Whether there is a flag of a kind. -/
def isGiven (f : Flag) (flags : List (Flag × Text)) : Bool := flags.any (·.1 = f)

theorem lastValue?_concat (f : Flag) (flags : List (Flag × Text)) (flag : Flag × Text) :
    lastValue? f (flags ++ [flag]) = if flag.1 = f then some flag.2 else lastValue? f flags := by
  unfold lastValue?
  rw [List.reverse_append, List.reverse_singleton, List.singleton_append]
  by_cases h : flag.1 = f
  · simp [h]
  · simp [h]

theorem isGiven_concat (f : Flag) (flags : List (Flag × Text)) (flag : Flag × Text) :
    isGiven f (flags ++ [flag]) = (isGiven f flags || decide (flag.1 = f)) := by
  simp [isGiven]

theorem valuesOf_concat (f : Flag) (flags : List (Flag × Text)) (flag : Flag × Text) :
    valuesOf f (flags ++ [flag]) = valuesOf f flags ++ if flag.1 = f then [flag.2] else [] := by
  unfold valuesOf
  rw [List.filter_append, List.map_append]
  by_cases h : flag.1 = f
  · simp [h]
  · simp [h]

/-- The settings hold what the flags give. -/
structure GivenBy (flags : List (Flag × Text)) (s : Settings) : Prop where
  moduleId : s.moduleId = lastValue? .moduleId flags
  runtimeModule : s.runtimeModule = isGiven .runtimeModule flags
  externalPattern : s.externalPattern = lastValue? .externalPattern flags
  importPaths : s.importPaths = valuesOf .importPath flags

/-- One more flag changes the setting of its kind. -/
theorem GivenBy.apply {flags : List (Flag × Text)} {s s' : Settings} {flag : Flag × Text}
    (h : GivenBy flags s) (hs' : s.apply flag = .ok s') : GivenBy (flags ++ [flag]) s' := by
  obtain ⟨hid, hmode, hexternal, hpaths⟩ := h
  obtain ⟨f, value⟩ := flag
  constructor <;> simp only [lastValue?_concat, isGiven_concat, valuesOf_concat] <;> cases f <;> cases hs' <;>
    simp [hid, hmode, hexternal, hpaths]

/-- Flags that are applied one after the other give the settings. -/
theorem givenBy_of_foldlM {flags : List (Flag × Text)} {s : Settings}
    (h : flags.foldlM Settings.apply {} = .ok s) : GivenBy flags s := by
  induction flags using List.reverseRecOn generalizing s with
  | nil =>
    cases h
    exact ⟨rfl, rfl, rfl, rfl⟩
  | append_singleton flags flag ih =>
    rw [List.foldlM_append] at h
    obtain ⟨before, hbefore, h⟩ := Config.bind_eq_ok.1 h
    rw [List.foldlM_cons] at h
    obtain ⟨after, hafter, h⟩ := Config.bind_eq_ok.1 h
    cases h
    exact (ih hbefore).apply hafter

/-! ## Flags that give paths -/

def isEquals (c : CodePoint) : Bool := c = '='

/-- What stands before the first equals sign of a text. -/
def specifierOf (item : Text) : Text := item.takeWhile (!isEquals ·)

/-- What stands behind the first equals sign of a text. -/
def pathOf (item : Text) : Text := (item.dropWhile (!isEquals ·)).drop 1

/-- A value that gives no path: it has no equals sign, or nothing on one side of the first one. -/
def Pathless (item : Text) : Prop :=
  item.any isEquals = false ∨ specifierOf item = [] ∨ pathOf item = []

instance : DecidablePred Pathless := fun _ => inferInstanceAs (Decidable (_ ∨ _))

theorem cutAtEquals_eq (item : Text) : Argument.cutAtEquals item =
    (specifierOf item, if item.any isEquals then some (pathOf item) else none) := by
  induction item with
  | nil => rfl
  | cons c item ih =>
    rw [Argument.cutAtEquals]
    by_cases h : c = '='
    · simp [h, isEquals, specifierOf, pathOf]
    · rw [if_neg h, ih]
      simp [h, isEquals, specifierOf, pathOf]

theorem importPathOfFlag_eq (item : Text) : importPathOfFlag item =
    if Pathless item then .error (.flagNotPath item) else .ok (specifierOf item, pathOf item) := by
  unfold importPathOfFlag
  rw [cutAtEquals_eq]
  cases h : item.any isEquals with
  | false => simp [Pathless, h]
  | true => simp [Pathless, h]

/-- The first flag that gives no path is rejected; without one each flag gives its path. -/
theorem mapM_importPathOfFlag (items : List Text) : items.mapM importPathOfFlag =
    match items.find? (Pathless ·) with
    | some item => .error (.flagNotPath item)
    | none => .ok (items.map fun item => (specifierOf item, pathOf item)) := by
  induction items with
  | nil => rfl
  | cons item items ih =>
    rw [List.mapM_cons, importPathOfFlag_eq, ih]
    by_cases h : Pathless item
    · rw [if_pos h, List.find?_cons_of_pos (by simpa using h)]
      rfl
    · rw [if_neg h, List.find?_cons_of_neg (by simpa using h)]
      cases items.find? (Pathless ·) <;> rfl

/-- The path of the last flag for a specifier. -/
def lastPath? (specifier : Text) (items : List Text) : Option Text :=
  (items.reverse.find? (specifierOf · = specifier)).map pathOf

theorem lastPath?_cons (specifier item : Text) (items : List Text) :
    lastPath? specifier (item :: items) = (lastPath? specifier items).or
      (if specifierOf item = specifier then some (pathOf item) else none) := by
  unfold lastPath?
  rw [List.reverse_cons, List.find?_append]
  cases items.reverse.find? (specifierOf · = specifier) with
  | some found => rfl
  | none =>
    by_cases h : specifierOf item = specifier
    · simp [h]
    · simp [h]

/-- Each flag sets its path in the table, over what stood there. -/
theorem lookUp?_setPaths (specifier : Text) (table : List (Text × Json)) (items : List Text) :
    Json.lookUp? specifier
        (setPaths table (items.map fun item => (specifierOf item, pathOf item))) =
      ((lastPath? specifier items).map Json.text).or (Json.lookUp? specifier table) := by
  induction items generalizing table with
  | nil => rfl
  | cons item items ih =>
    show Json.lookUp? specifier (setPaths (Json.setMember _ _ table) _) = _
    rw [ih, Json.lookUp?_setMember, lastPath?_cons]
    cases lastPath? specifier items with
    | some path => rfl
    | none =>
      rw [Option.none_or, Option.map_none, Option.none_or]
      split <;> rfl

/-! ## What counts -/

/-- The table that a value holds; an empty one unless it is an object. -/
def tableOf : Option Json → List (Text × Json)
  | some (.object table) => table
  | _ => []

theorem mergedPaths_eq (options : List (Text × Json)) (paths : List (Text × Text)) :
    mergedPaths options paths = if paths.isEmpty then .null
      else .object (setPaths (tableOf (Json.lookUp? "importPaths" options)) paths) := by
  unfold mergedPaths
  cases Json.lookUp? "importPaths" options with
  | none => rfl
  | some value => cases value <;> rfl

/-- The value that the command line gives for a field over the options. -/
def fieldValue? (source : Path) (s : Settings) (options : List (Text × Json))
    (paths : List (Text × Text)) : Config.Field → Option Json
  | .moduleId =>
    (s.moduleId.or (if (Json.lookUp? "moduleId" options).isSome then none
      else some source.text)).map .text
  | .runtimeModule => if s.runtimeModule then some (.boolean true) else none
  | .externalPattern => s.externalPattern.map .text
  | .importPaths => if paths.isEmpty then none
    else some (.object (setPaths (tableOf (Json.lookUp? "importPaths" options)) paths))

/-- A value for a field counts unless it is null or another one for the field follows. -/
theorem overriding?_field_cons (g : Config.Field) (value : Json) (overrides : List (Text × Json))
    (f : Config.Field) : Config.overriding? ((g.override, value) :: overrides) f =
      (Config.overriding? overrides f).or
        (if g = f then if Config.isNull value then none else some value else none) := by
  have hnone : Config.Values.get {} f = none := by cases f <;> rfl
  have hcons : (Config.overriding? ((g.override, value) :: overrides) f).or
      (Config.Values.get {} f) = _ := Config.overriding?_cons rfl overrides {} f
  rw [hnone, Option.or_none] at hcons
  rw [hcons]
  cases Config.isNull value with
  | true => simp [hnone]
  | false => simp [Config.Values.get_set, hnone]

theorem overriding?_overrides (source : Path) (s : Settings) (options : List (Text × Json))
    (paths : List (Text × Text)) (f : Config.Field) :
    Config.overriding? (overrides source s options paths) f =
      fieldValue? source s options paths f := by
  have hnil : Config.overriding? [] f = none := rfl
  have hnull (t : Option Text) :
      (if Config.isNull (Json.ofText? t) then none else some (Json.ofText? t)) = t.map .text := by
    cases t <;> rfl
  show Config.overriding? ((Config.Field.override .moduleId, _) ::
    (Config.Field.override .runtimeModule, _) :: (Config.Field.override .externalPattern, _) ::
    [(Config.Field.override .importPaths, _)]) f = _
  simp only [overriding?_field_cons, hnil, hnull]
  cases f with
  | moduleId =>
    cases hid : s.moduleId with
    | some id => simp [fieldValue?, hid]
    | none => simp [fieldValue?, hid]
  | runtimeModule =>
    cases hmode : s.runtimeModule with
    | true => simp [fieldValue?, hmode, Config.isNull]
    | false => simp [fieldValue?, hmode, Config.isNull]
  | externalPattern => simp [fieldValue?]
  | importPaths =>
    cases hpaths : paths.isEmpty with
    | true => simp [fieldValue?, mergedPaths_eq, hpaths, Config.isNull]
    | false => simp [fieldValue?, mergedPaths_eq, hpaths, Config.isNull]

/-! ## The configuration -/

theorem result_configure_error {source : Path} {s : Settings} {options : List (Text × Json)}
    {e : ConfigError} (h : s.importPaths.mapM importPathOfFlag = .error e) :
    (configure source s options).result.1 = .error e := by
  rw [configure, h]
  rfl

/-- A configuration that the command line gives holds, in each field, what the command line gives
for it, else what the options do, else the default. -/
theorem held_of_configure {source : Path} {s : Settings} {options : List (Text × Json)}
    {c : Config} (hdistinct : Json.Distinct options)
    (h : (configure source s options).result.1 = .ok c) :
    ∃ paths, s.importPaths.mapM importPathOfFlag = .ok paths ∧ c.Compiled ∧
      ∀ f, ((fieldValue? source s options paths f).or (Json.lookUp? f.option options)).or
        f.default? = some (c.held f) := by
  cases hpaths : s.importPaths.mapM importPathOfFlag with
  | error e =>
    rw [result_configure_error hpaths] at h
    cases h
  | ok paths =>
    have hconfigure : configure source s options =
        Config.ofOptions (.object options) (overrides source s options paths) := by
      rw [configure, hpaths]
      rfl
    rw [hconfigure] at h
    obtain ⟨members, hmembers, -, -, hcompiled, hheld⟩ := Config.ofOptions_eq_ok_iff.1 h
    cases hmembers
    refine ⟨paths, rfl, hcompiled, fun f => ?_⟩
    rw [← overriding?_overrides, ← Json.lastOf?_eq_lookUp? hdistinct]
    exact hheld f

/-- The options that a file holds have different names. -/
theorem distinct_of_optionsOf {access : FileAccess Id} {s : Settings}
    {options : List (Text × Json)} (h : Id.run (optionsOf access s) = .ok (.ok options)) :
    Json.Distinct options := by
  unfold optionsOf at h
  split at h
  · cases h
    exact List.nodup_nil
  case h_2 path hpath =>
    unfold readOptions at h
    rw [Id.run_bind] at h
    split at h
    · cases h
    · cases h
    · have htext := Except.ok.inj h
      unfold Config.optionsOfText at htext
      split at htext
      · cases htext
      · cases htext
        exact Json.distinct_of_ofText ‹_›
      · cases htext

/-- What the path flags and the table of the options make of the table of a configuration. -/
theorem tableOf_importPaths {source : Path} {s : Settings} {options : List (Text × Json)}
    {paths : List (Text × Text)} {c : Config}
    (h : ((fieldValue? source s options paths .importPaths).or
      (Json.lookUp? "importPaths" options)).or (some .null) = some (c.held .importPaths)) :
    (c.importPaths.getD []).map (fun p => (p.1, Json.text p.2)) =
      setPaths (tableOf (Json.lookUp? "importPaths" options)) paths := by
  have hheld : (c.importPaths.getD []).map (fun p => (p.1, Json.text p.2)) =
      tableOf (some (c.held .importPaths)) := by
    unfold Config.held Config.pathsValue
    cases c.importPaths <;> rfl
  rw [hheld, ← h]
  cases paths with
  | nil =>
    show tableOf ((Json.lookUp? "importPaths" options).or (some .null)) = _
    cases Json.lookUp? "importPaths" options <;> rfl
  | cons path paths => rfl

/-- The configuration that flags give together with the options and the path of the source. -/
structure Merges (source : Path) (flags : List (Flag × Text)) (options : List (Text × Json))
    (c : Config) : Prop where
  moduleId : Json.text c.moduleId =
    (((lastValue? .moduleId flags).map Json.text).or (Json.lookUp? "moduleId" options)).getD
      (.text source.text)
  runtimeModule : Json.boolean c.runtimeModule =
    if isGiven .runtimeModule flags then .boolean true
    else (Json.lookUp? "runtimeModule" options).getD (.boolean false)
  externalPattern : Json.ofText? (c.external.map (·.source)) =
    (((lastValue? .externalPattern flags).map Json.text).or
      (Json.lookUp? "externalPattern" options)).getD .null
  /-- The pattern is that of its text. -/
  compiled : c.Compiled
  /-- Of a specifier the path of the last flag counts, else the entry of the options. -/
  remap : ∀ specifier, (Json.lookUp? specifier (c.importPaths.getD [])).map Json.text =
    ((lastPath? specifier (valuesOf .importPath flags)).map Json.text).or
      (Json.lookUp? specifier (tableOf (Json.lookUp? "importPaths" options)))

theorem merges_of_configure {source : Path} {flags : List (Flag × Text)} {s : Settings}
    {options : List (Text × Json)} {c : Config} (hflags : GivenBy flags s)
    (hdistinct : Json.Distinct options) (h : (configure source s options).result.1 = .ok c) :
    Merges source flags options c := by
  obtain ⟨hid, hmode, hexternal, hitems⟩ := hflags
  obtain ⟨paths, hpaths, hcompiled, hheld⟩ := held_of_configure hdistinct h
  constructor
  case moduleId =>
    have hcounts : (fieldValue? source s options paths .moduleId).or
        (Json.lookUp? "moduleId" options) = some ((((lastValue? .moduleId flags).map Json.text).or
          (Json.lookUp? "moduleId" options)).getD (.text source.text)) := by
      rw [fieldValue?, hid]
      cases lastValue? .moduleId flags <;> cases Json.lookUp? "moduleId" options <;> rfl
    have hfield : ((fieldValue? source s options paths .moduleId).or
        (Json.lookUp? "moduleId" options)).or none = some (.text c.moduleId) := hheld .moduleId
    rw [hcounts] at hfield
    exact (Option.some.inj hfield).symm
  case runtimeModule =>
    have hfield := hheld .runtimeModule
    rw [fieldValue?, hmode] at hfield
    cases hlast : isGiven .runtimeModule flags with
    | true =>
      rw [hlast] at hfield
      exact (Option.some.inj hfield).symm
    | false =>
      rw [hlast, if_neg Bool.false_ne_true, Option.none_or] at hfield
      exact (Option.some.inj (Option.or_some.symm.trans hfield)).symm
  case externalPattern =>
    have hfield := hheld .externalPattern
    rw [fieldValue?, hexternal] at hfield
    exact (Option.some.inj (Option.or_some.symm.trans hfield)).symm
  case compiled => exact hcompiled
  case remap =>
    intro specifier
    rw [hitems, mapM_importPathOfFlag] at hpaths
    split at hpaths
    · cases hpaths
    · cases hpaths
      rw [← Json.lookUp?_map, tableOf_importPaths (hheld .importPaths), lookUp?_setPaths]

/-- The flags count more than the options, whatever file the options come from: a configuration that
is given merges both, and none is given if a flag gives no path. -/
theorem configure_merges {access : FileAccess Id} {source : Path} {flags : List (Flag × Text)}
    {s : Settings} {options : List (Text × Json)}
    (hflags : flags.foldlM Settings.apply {} = .ok s)
    (hoptions : Id.run (optionsOf access s) = .ok (.ok options)) :
    (∀ c, (configure source s options).result.1 = .ok c → Merges source flags options c) ∧
      ((∃ item ∈ valuesOf .importPath flags, Pathless item) →
        ∃ e, (configure source s options).result.1 = .error e ∧ ∃ item ∈ valuesOf .importPath flags,
          Pathless item ∧ e.message? = some ("--import-path expects SPEC=PATH, got " ++ item.shown)) := by
  have hgiven := givenBy_of_foldlM hflags
  refine ⟨fun c h => merges_of_configure hgiven (distinct_of_optionsOf hoptions) h, ?_⟩
  rintro ⟨item, hitem, hpathless⟩
  have hpaths := mapM_importPathOfFlag s.importPaths
  rw [hgiven.importPaths] at hpaths
  cases hfind : (valuesOf .importPath flags).find? (Pathless ·) with
  | none => exact absurd (decide_eq_true hpathless) (List.find?_eq_none.1 hfind item hitem)
  | some first =>
    rw [hfind, ← hgiven.importPaths] at hpaths
    refine ⟨_, result_configure_error hpaths, first, List.mem_of_find?_eq_some hfind, ?_, rfl⟩
    exact of_decide_eq_true (List.find?_some (p := (Pathless ·)) hfind)

/-- Whether flags, with the options of the file that they name, give a result that passes a test. -/
def configuresTo (files : FileTree) (source : Path) (flags : List (Flag × Text))
    (test : Except ConfigError Config → Bool) : Bool :=
  match flags.foldlM Settings.apply {} with
  | .error _ => false
  | .ok s =>
    match Id.run (optionsOf files.access s) with
    | .ok (.ok options) => test (configure source s options).result.1
    | _ => false

theorem exists_of_configuresTo {files : FileTree} {source : Path} {flags : List (Flag × Text)}
    {test : Except ConfigError Config → Bool} (h : configuresTo files source flags test = true) :
    ∃ s options, flags.foldlM Settings.apply {} = .ok s ∧
      Id.run (optionsOf files.access s) = .ok (.ok options) ∧
      test (configure source s options).result.1 = true := by
  unfold configuresTo at h
  split at h
  case h_1 => cases h
  case h_2 s hflags =>
    split at h
    case h_1 options hoptions => exact ⟨s, options, hflags, hoptions, h⟩
    case h_2 => cases h

/-- A file with a table of paths, under flags that give paths twice for a specifier and a mode; and
the same with a flag that gives a path for nothing. -/
theorem configure_merges_file_and_flags :
    let text : Text := "\x7b\"moduleId\": \"main\", \"runtimeModule\": false,
      \"importPaths\": \x7b\"lib\": \"lib.js\", \"util\": \"old.js\"\x7d\x7d"
    let files : FileTree := ⟨[(["c.json"], .file ((Text.toUtf8? text).getD []))]⟩
    let flags : List (Flag × Text) := [(.importPath, "util=a.js"), (.config, "c.json"),
      (.runtimeModule, []), (.importPath, "util=b=c.js")]
    let paths : List (Text × Text) := [("lib", "lib.js"), ("util", "b=c.js")]
    let faulty : List (Flag × Text) := (.importPath, "=x") :: flags
    (∃ s options c, flags.foldlM Settings.apply {} = .ok s ∧
      Id.run (optionsOf files.access s) = .ok (.ok options) ∧
      (configure (.ofText "m.js") s options).result.1 = .ok c ∧
      Merges (.ofText "m.js") flags options c ∧ c.moduleId = "main" ∧ c.runtimeModule = true ∧
      c.importPaths = some paths) ∧
    ∃ s options e, faulty.foldlM Settings.apply {} = .ok s ∧
      Id.run (optionsOf files.access s) = .ok (.ok options) ∧
      (configure (.ofText "m.js") s options).result.1 = .error e ∧
      e.message? = some "--import-path expects SPEC=PATH, got '=x'" := by
  intro text files flags paths faulty
  constructor
  · have htest : configuresTo files (.ofText "m.js") flags (fun
        | .ok c => c.moduleId = "main" && c.runtimeModule && c.importPaths = some paths
        | .error _ => false) = true := by
      decide +kernel
    obtain ⟨s, options, hflags, hoptions, hresult⟩ := exists_of_configuresTo htest
    cases hc : (configure (.ofText "m.js") s options).result.1 with
    | error e =>
      rw [hc] at hresult
      cases hresult
    | ok c =>
      rw [hc] at hresult
      simp only [Bool.and_eq_true, decide_eq_true_eq] at hresult
      obtain ⟨⟨hid, hmode⟩, hpaths⟩ := hresult
      exact ⟨s, options, c, hflags, hoptions, hc, (configure_merges hflags hoptions).1 c hc, hid,
        hmode, hpaths⟩
  · have htest : configuresTo files (.ofText "m.js") faulty (fun _ => true) = true := by
      decide +kernel
    obtain ⟨s, options, hflags, hoptions, -⟩ := exists_of_configuresTo htest
    have hitem : ∃ item ∈ valuesOf .importPath faulty, Pathless item := by
      decide
    obtain ⟨-, hrejects⟩ := @configure_merges _ (.ofText "m.js") _ _ _ hflags hoptions
    obtain ⟨e, he, item, hitem, hpathless, hmessage⟩ := hrejects hitem
    have honly : ∀ item ∈ valuesOf .importPath faulty, Pathless item → item = "=x" := by
      decide
    rw [honly item hitem hpathless] at hmessage
    exact ⟨s, options, e, hflags, hoptions, he, hmessage⟩

end ModuleLowering.CommandLine
