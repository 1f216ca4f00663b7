import ModuleLowering.CommandLine.Run
import ModuleLowering.Proofs.WritingFiles

/-!
# Runs of the command line

A run is all or nothing. It ends with one if something is said about why not, and then no file has
changed. It ends with zero if the source was lowered, and then the code has gone to one place: into
the file that the settings name, else into what is printed for a machine, else to the standard
output. What a run comes to is taken apart once, into these two ways to end.
-/

set_option autoImplicit false

namespace ModuleLowering.CommandLine

/-! ## The two ways to end -/

/-- The source is lowered to `code` under the configuration that the options and the settings give
together. -/
inductive LowersTo (access : FileAccess Id) (source : Path) (s : Settings) (code : Text) : Prop where
  | intro (options : List (Text × Json)) (config : Config) (content : Text)
      (hoptions : Id.run (optionsOf access s) = .ok (.ok options))
      (hconfig : (configure source s options).result.1 = .ok config)
      (hcontent : Id.run (access.readText source) = .ok content)
      (hcode : (lowerText content (.ok config) (some source.text)).result.1 = .ok (.ok code))

theorem configRejected_eq_done {source : Path} {s : Settings} {events : List Event}
    {e : ConfigError} {report : Report} (h : configRejected source s events e = .done report) :
    ∃ d, report = rejected source s events d := by
  unfold configRejected at h
  split at h
  · exact ⟨_, (Outcome.done.inj h).symm⟩
  · cases h

/-- The code that a file is lowered to is that of its text. -/
theorem lowerFile_eq_ok {access : FileAccess Id} {path : Path} {config : Config} {code : Text}
    (h : (Id.run (lowerFile access path config)).1 = .ok (.ok code)) :
    ∃ content, Id.run (access.readText path) = .ok content ∧
      (lowerText content (.ok config) (some path.text)).result.1 = .ok (.ok code) := by
  unfold lowerFile at h
  rw [Id.run_bind] at h
  cases hread : Id.run (access.readText path) with
  | error fault =>
    rw [hread] at h
    cases fault <;> cases h
  | ok content =>
    rw [hread] at h
    refine ⟨content, rfl, ?_⟩
    change (lowerText content (.ok config) (some path.text)).result.1.mapError Break.crash = _ at h
    cases hresult : (lowerText content (.ok config) (some path.text)).result.1 with
    | error crash =>
      rw [hresult] at h
      cases h
    | ok outcome =>
      rw [hresult] at h
      rw [Except.ok.inj h]

/-- A run that is carried out rejects the source or delivers what it is lowered to. -/
theorem runSettings_eq_done {access : FileAccess Id} {source : Path} {s : Settings}
    {report : Report} (h : Id.run (runSettings access source s) = .done report) :
    (∃ events d, report = rejected source s events d) ∨
      ∃ events code, LowersTo access source s code ∧ report = delivered s events code := by
  unfold runSettings at h
  rw [Id.run_bind] at h
  cases hoptions : Id.run (optionsOf access s) with
  | error b =>
    rw [hoptions] at h
    cases h
  | ok options? =>
    rw [hoptions] at h
    cases options? with
    | error e =>
      obtain ⟨d, hd⟩ := configRejected_eq_done h
      exact .inl ⟨_, d, hd⟩
    | ok options =>
      dsimp only at h
      cases hconfig : (configure source s options).result with
      | mk config? events =>
        rw [hconfig] at h
        cases config? with
        | error e =>
          obtain ⟨d, hd⟩ := configRejected_eq_done h
          exact .inl ⟨_, d, hd⟩
        | ok config =>
          dsimp only at h
          rw [Id.run_bind] at h
          cases hlower : Id.run (lowerFile access source config) with
          | mk result more =>
            rw [hlower] at h
            rcases result with b | d | code
            · cases h
            · exact .inl ⟨_, d, (Outcome.done.inj h).symm⟩
            · obtain ⟨content, hcontent, hcode⟩ := lowerFile_eq_ok (congrArg Prod.fst hlower)
              refine .inr ⟨_, code, ⟨options, config, content, hoptions, ?_, hcontent, hcode⟩,
                (Outcome.done.inj h).symm⟩
              rw [hconfig]

/-! ## Files afterwards -/

/-- The files after a report has been carried out. -/
def Report.carryOut (r : Report) (files : FileTree) : Except WriteFault FileTree :=
  match r.written with
  | none => .ok files
  | some (path, text) => files.writeText path text

/-- A run with these arguments comes to its end with a report, and leaves the files `after`. -/
structure Ends (access : FileAccess Id) (arguments : List Text) (files : FileTree)
    (report : Report) (after : FileTree) : Prop where
  run : Id.run (run access arguments) = .done report
  files : report.carryOut files = .ok after

/-- The code is delivered once: `members` are those of what is printed for a machine. -/
inductive Delivered (s : Settings) (code : Text) (files : FileTree) (stdout : Text)
    (members : List (Text × Json)) (after : FileTree) : Prop where
  | file (path : Text) (bytes : List UInt8) (houtput : s.output = some path)
      (hbytes : code.toUtf8? = some bytes) (hwritten : files.Written (.ofText path) bytes after)
      (hmember : Json.lookUp? "code" members = none) (hstdout : s.json = false → stdout = [])
  | member (houtput : s.output = none) (hjson : s.json = true)
      (hmember : Json.lookUp? "code" members = some (.text code)) (hfiles : after = files)
  | stdout (houtput : s.output = none) (hjson : s.json = false) (hstdout : stdout = code)
      (hfiles : after = files)

/-- A run is all or nothing. Where the settings ask for it, `members` are printed for a machine. -/
structure AllOrNothing (access : FileAccess Id) (source : Path) (s : Settings) (files : FileTree)
    (report : Report) (members : List (Text × Json)) (after : FileTree) : Prop where
  exitCode : report.exitCode = 0 ∨ report.exitCode = 1
  nothing : report.exitCode = 1 → after = files ∧ (s.json = false → report.stdout = [])
  all : report.exitCode = 0 → ∃ code, LowersTo access source s code ∧
    Delivered s code files report.stdout members after
  payload : s.json = true → report.stdout = (Json.object members).render ++ "\n" ∧
    Json.lookUp? "exit_code" members = some (.ofNat report.exitCode) ∧
    ∃ diagnostics, Json.lookUp? "diagnostics" members = some (.array diagnostics) ∧
      (diagnostics = [] ↔ report.exitCode = 0)

theorem allOrNothing_rejected {access : FileAccess Id} {source : Path} {s : Settings}
    {files after : FileTree} {events : List Event} {d : Diagnostic}
    (h : (rejected source s events d).carryOut files = .ok after) :
    ∃ members, AllOrNothing access source s files (rejected source s events d) members after := by
  unfold rejected at h ⊢
  cases hjson : s.json with
  | true =>
    rw [hjson, if_pos rfl] at h
    refine ⟨[("exit_code", .ofNat 1), ("diagnostics", .array [d.toJson "driver" source.text])],
      .inr rfl, fun _ => ⟨(Except.ok.inj h).symm, fun hno => ?_⟩, fun hzero => ?_, fun _ => ?_⟩
    · rw [hjson] at hno
      cases hno
    · cases hzero
    · exact ⟨rfl, rfl, _, rfl, by simp⟩
  | false =>
    rw [hjson, if_neg Bool.false_ne_true] at h
    refine ⟨[], .inr rfl, fun _ => ⟨(Except.ok.inj h).symm, fun _ => rfl⟩, fun hzero => ?_,
      fun hyes => ?_⟩
    · cases hzero
    · rw [hjson] at hyes
      cases hyes

theorem allOrNothing_delivered {access : FileAccess Id} {source : Path} {s : Settings}
    {files after : FileTree} {events : List Event} {code : Text}
    (hcode : LowersTo access source s code)
    (h : (delivered s events code).carryOut files = .ok after) :
    ∃ members, AllOrNothing access source s files (delivered s events code) members after := by
  have hzero : ∀ r : Report, r.exitCode = 0 → r.exitCode ≠ 1 := by
    intro r hr hone
    rw [hr] at hone
    cases hone
  unfold delivered at h ⊢
  cases houtput : s.output with
  | some path =>
    simp only [houtput] at h ⊢
    obtain ⟨bytes, hbytes, hwritten⟩ := FileTree.writeText_spec h
    refine ⟨[("exit_code", .ofNat 0), ("diagnostics", .array [])], .inl rfl,
      fun hone => absurd hone (hzero _ rfl), fun _ => ⟨code, hcode, ?_⟩, fun hyes => ?_⟩
    · exact .file path bytes houtput hbytes hwritten rfl fun hno => by simp [hno]
    · exact ⟨by rw [hyes]; rfl, rfl, [], rfl, by simp⟩
  | none =>
    simp only [houtput] at h ⊢
    have hfiles : after = files := (Except.ok.inj h).symm
    cases hjson : s.json with
    | true =>
      refine ⟨[("exit_code", .ofNat 0), ("diagnostics", .array []), ("code", .text code)], .inl rfl,
        fun hone => absurd hone (hzero _ rfl), fun _ => ⟨code, hcode, ?_⟩, fun _ => ?_⟩
      · exact .member houtput hjson rfl hfiles
      · exact ⟨rfl, rfl, [], rfl, by simp⟩
    | false =>
      refine ⟨[], .inl rfl, fun hone => absurd hone (hzero _ rfl), fun _ => ⟨code, hcode, ?_⟩,
        fun hyes => ?_⟩
      · exact .stdout houtput hjson rfl hfiles
      · rw [hjson] at hyes
        cases hyes

/-- Whatever the arguments ask for and whatever the files hold, a run that comes to its end either
delivers the code that the source is lowered to, once, or leaves every file as it was. -/
theorem allOrNothing_of_ends {access : FileAccess Id} {arguments : List Text}
    {files after : FileTree} {report : Report} (h : Ends access arguments files report after) :
    ∃ source s members, Settings.ofArguments arguments = .ok (source, s) ∧
      AllOrNothing access (.ofText source) s files report members after := by
  obtain ⟨hrun, hafter⟩ := h
  unfold run at hrun
  cases hsettings : Settings.ofArguments arguments with
  | error stop =>
    rw [hsettings] at hrun
    cases hrun
  | ok found =>
    obtain ⟨source, s⟩ := found
    rw [hsettings] at hrun
    suffices ∃ members, AllOrNothing access (.ofText source) s files report members after by
      obtain ⟨members, hmembers⟩ := this
      exact ⟨source, s, members, rfl, hmembers⟩
    rcases runSettings_eq_done hrun with ⟨events, d, rfl⟩ | ⟨events, code, hcode, rfl⟩
    · exact allOrNothing_rejected hafter
    · exact allOrNothing_delivered hcode hafter

/-- Whether a run on some files comes to its end, and what it reports and leaves passes a test. -/
def endsWith (files : FileTree) (arguments : List Text) (test : Report → FileTree → Bool) : Bool :=
  match Id.run (run files.access arguments) with
  | .done report =>
    match report.carryOut files with
    | .ok after => test report after
    | .error _ => false
  | _ => false

theorem exists_of_endsWith {files : FileTree} {arguments : List Text}
    {test : Report → FileTree → Bool} (h : endsWith files arguments test = true) :
    ∃ report after, Ends files.access arguments files report after ∧ test report after = true := by
  unfold endsWith at h
  split at h
  case h_1 report hrun =>
    split at h
    case h_1 after hafter => exact ⟨report, after, ⟨hrun, hafter⟩, h⟩
    case h_2 => cases h
  case h_2 => cases h

/-- A module is lowered into a file in the place of another one, under options from a third one,
with a report for a machine. -/
theorem allOrNothing_of_output_file :
    ∃ (files : FileTree) (report : Report) (after : FileTree) (source : Text) (s : Settings)
      (members : List (Text × Json)),
      Ends files.access ["m.js", "--out", "d/../out.js", "--json", "--config", "c.json"] files report
        after ∧
      Settings.ofArguments ["m.js", "--out", "d/../out.js", "--json", "--config", "c.json"] =
        .ok (source, s) ∧
      AllOrNothing files.access (.ofText source) s files report members after ∧
      report.exitCode = 0 ∧
      (files.read (.ofText "out.js")).toOption ≠ (after.read (.ofText "out.js")).toOption := by
  let file (name content : Text) : List Text × FileTree.Entry :=
    ([name], .file ((Text.toUtf8? content).getD []))
  let files : FileTree :=
    ⟨[file "m.js" "export const a = 1;", file "c.json" "\x7b\"runtimeModule\": true\x7d",
      (["d"], .directory), file "out.js" "old"]⟩
  have htest : endsWith files ["m.js", "--out", "d/../out.js", "--json", "--config", "c.json"]
      (fun report after => report.exitCode = 0 &&
        (files.read (.ofText "out.js")).toOption ≠ (after.read (.ofText "out.js")).toOption) =
        true := by
    decide +kernel
  obtain ⟨report, after, hends, hreport⟩ := exists_of_endsWith htest
  obtain ⟨source, s, members, hsettings, hrun⟩ := allOrNothing_of_ends hends
  obtain ⟨hzero, hchanged⟩ := Bool.and_eq_true_iff.1 hreport
  exact ⟨files, report, after, source, s, members, hends, hsettings, hrun, of_decide_eq_true hzero,
    of_decide_eq_true hchanged⟩

end ModuleLowering.CommandLine
