/-
Checking and rendering a manifest.

Both commands start up alike and read the same manifest, and then go their own ways: `check` lists
what is wrong with the exporters, `render` assembles them, builds the template data and prints it.

* `check_code_eq_zero_iff` : on the same files, of whatever kind, both end well or neither does, in
  either format, and from a `render` that does not end well nothing comes to the standard output,
  unless the log goes there;
* `render_prints_log` : the log of a malformed exporter on the standard output.

Nothing after assembly can fail in `render`, so both verdicts are that on the exporters of the
manifest, of which there are none if metrics are switched off.
-/
import CollectorTemplate.Proofs.Build
import CollectorTemplate.Proofs.Runs

namespace CollectorTemplate

namespace Program

/-! ### Reports -/

/-- The code of a report. -/
def Report.code : Report → Nat
  | .error _ => 1
  | .ok (code, _) => code

/-- What a report prints. -/
def Report.output : Report → String
  | .error _ => ""
  | .ok (_, output) => output

theorem outcome_code (start : Start) (log : String) (report : Report) (trace : List Emission) :
    (outcome start log report trace).code = report.code := by
  cases report <;> rfl

/-- The standard output has the log, if that goes there, and then what is printed. -/
theorem outcome_output (start : Start) (log : String) (report : Report) (trace : List Emission) :
    (outcome start log report trace).output =
      (if start.sink = .output then log else "") ++ report.output := by
  cases report with
  | error text => exact String.append_empty.symm
  | ok printed => rfl

section

variable (d : Defaults) (context : ReconcileContext) (format : OutputFormat)
  (resource : Monitoring)

/-- What rendering reports is told by assembly: its failure, or else the data as it is printed. -/
theorem render_value :
    (render d context format resource).value =
      match (assemble .system (some context.id) (resource.exporters?.getD [])).value with
      | .error e => .error e.chain
      | .ok assembly => .ok (0, print format (templateData d resource.spec assembly) ++ "\n") := by
  -- The context that was begun is the current one when the builder enters it.
  have hbuilt := build_value ⟨.system, d⟩ context resource (({} : Ambient).begin context).2
  have hcurrent :
      ((({} : Ambient).begin context).2.enter context).2.current? = some context.id := rfl
  rw [hcurrent] at hbuilt
  rw [render]
  simp only [Traced.value_bind]
  rw [hbuilt]
  cases (assemble .system (some context.id) (resource.exporters?.getD [])).value <;> rfl

/-- Rendering ends well iff the exporters can be assembled. -/
theorem render_code_eq_zero_iff :
    (render d context format resource).value.code = 0 ↔
      ∃ assembly, (assemble .system (some context.id)
        (resource.exporters?.getD [])).value = .ok assembly := by
  rw [render_value]
  cases (assemble .system (some context.id) (resource.exporters?.getD [])).value with
  | error e => simp [Report.code]
  | ok assembly => simp [Report.code]

theorem render_output_of_code_ne_zero (h : (render d context format resource).value.code ≠ 0) :
    (render d context format resource).value.output = "" := by
  rw [render_value] at h ⊢
  cases hvalue : (assemble .system (some context.id) (resource.exporters?.getD [])).value with
  | error e => rfl
  | ok assembly =>
    rw [hvalue] at h
    exact absurd rfl h

/-- Checking ends well iff nothing is wrong with the exporters. -/
theorem check_code_eq_zero_iff_diagnose :
    (check context resource).value.code = 0 ↔
      (diagnose .system (some context.id) (resource.exporters?.getD [])).value = [] := by
  rw [check]
  cases resource.exporters? with
  | none =>
    -- Where metrics are switched off there are no exporters, and nothing is wrong with none.
    have hnil : (diagnose .system (some context.id) []).value = [] :=
      (diagnose_eq_nil_iff .system (some context.id) []).mpr ⟨by simp [Entries.keys], by simp⟩
    simpa [Report.code] using hnil
  | some exporters =>
    simp only [Traced.value_bind, Option.getD_some]
    cases (diagnose .system (some context.id) exporters).value with
    | nil => simp [Report.code]
    | cons problem problems => simp [Report.code]

end

theorem perform_of_no_manifest (command : Command) {d : Defaults} {context : ReconcileContext}
    {contents : Except FileFault String} {text : String}
    (h : manifest command.input contents = .error text) :
    perform d context command contents = pure (.error text) := by
  unfold perform
  rw [h]

theorem perform_render {d : Defaults} {context : ReconcileContext} {input : String}
    {format : OutputFormat} {contents : Except FileFault String} {resource : Monitoring}
    (h : manifest input contents = .ok resource) :
    perform d context (.render input format) contents = render d context format resource := by
  unfold perform
  dsimp only [Command.input]
  rw [h]

theorem perform_check {d : Defaults} {context : ReconcileContext} {input : String}
    {contents : Except FileFault String} {resource : Monitoring}
    (h : manifest input contents = .ok resource) :
    perform d context (.check input) contents = check context resource := by
  unfold perform
  dsimp only [Command.input]
  rw [h]

/-- On what was read of a manifest both commands have one verdict. -/
theorem perform_check_code_eq_zero_iff (d : Defaults) (context context' : ReconcileContext)
    (input : String) (format : OutputFormat) (contents : Except FileFault String) :
    (perform d context (.check input) contents).value.code = 0 ↔
      (perform d context' (.render input format) contents).value.code = 0 := by
  cases hmanifest : manifest input contents with
  | error text =>
    rw [perform_of_no_manifest (.check input) hmanifest,
      perform_of_no_manifest (.render input format) hmanifest]
  | ok resource =>
    rw [perform_check hmanifest, perform_render hmanifest, check_code_eq_zero_iff_diagnose,
      render_code_eq_zero_iff, diagnose_eq_nil_iff, assemble_ok_iff]

theorem perform_render_output {d : Defaults} {context : ReconcileContext} {input : String}
    {format : OutputFormat} {contents : Except FileFault String}
    (h : (perform d context (.render input format) contents).value.code ≠ 0) :
    (perform d context (.render input format) contents).value.output = "" := by
  cases hmanifest : manifest input contents with
  | error text =>
    rw [perform_of_no_manifest (.render input format) hmanifest]
    rfl
  | ok resource =>
    rw [perform_render hmanifest] at h ⊢
    exact render_output_of_code_ne_zero d context format resource h

/-! ### Runs -/

section

variable {σ : Type}

/-- The log of a command goes to the standard output. -/
def LogsToOutput (library : Library) (files : FileAccess (StateM σ))
    (lookup : String → Option String) (i : Invocation) (s : σ) : Prop :=
  ∃ start, ((startUp library files lookup i).run s).1.value = .ok start ∧ start.sink = .output

/-- Commands with the same options for all commands start up alike, whatever their logs look
like. -/
theorem startUp_command (library : Library) (line : LogFormat → Nat → Event → String)
    (files : FileAccess (StateM σ)) (lookup : String → Option String) (verbose : Bool)
    (config : Option String) (command command' : Command) :
    startUp { library with line } files lookup ⟨verbose, config, command⟩ =
      startUp library files lookup ⟨verbose, config, command'⟩ := rfl

/-- With the same files of any kind, environment and libraries, and with the same options for all
commands, checking a manifest ends well iff rendering it does, in either format; and if rendering
does not, nothing comes to the standard output, unless the log goes there.  The lines of the log may
tell the time, and so may be others in each run.  Whether the configuration loads and the log begins
is not asked: otherwise both fail. -/
theorem check_code_eq_zero_iff (library : Library) (line : LogFormat → Nat → Event → String)
    (files : FileAccess (StateM σ)) (lookup : String → Option String) (s : σ)
    (context context' : ReconcileContext) {checking rendering : List String} {verbose : Bool}
    {config : Option String} {input : String} {format : OutputFormat}
    (hcheck : Arguments.parse checking = .run ⟨verbose, config, .check input⟩)
    (hrender : Arguments.parse rendering = .run ⟨verbose, config, .render input format⟩) :
    let checked := ((run files lookup context checking { library with line }).run s).1
    let rendered := ((run files lookup context' rendering library).run s).1
    (checked.code = 0 ↔ rendered.code = 0) ∧
      (rendered.code ≠ 0 →
        ¬LogsToOutput library files lookup ⟨verbose, config, .render input format⟩ s →
        rendered.output = "") := by
  intro checked rendered
  have hchecked : checked = ((execute { library with line } files lookup context
      ⟨verbose, config, .check input⟩).run s).1 := by
    simp only [checked, run, hcheck]
  have hrendered : rendered = ((execute library files lookup context'
      ⟨verbose, config, .render input format⟩).run s).1 := by
    simp only [rendered, run, hrender]
  have hstart := startUp_command library line files lookup verbose config (.check input)
    (.render input format)
  -- Either both fail to start up, or both go on with the same settings and the same files.
  rcases hstarted :
      (startUp library files lookup ⟨verbose, config, .render input format⟩).run s with
    ⟨⟨started, trace⟩, s'⟩
  cases started with
  | error text =>
    rw [run_execute_of_not_started (by rw [hstart]; exact hstarted)] at hchecked
    rw [run_execute_of_not_started hstarted] at hrendered
    rw [hchecked, hrendered]
    exact ⟨Iff.rfl, fun _ _ => rfl⟩
  | ok start =>
    rw [run_execute_of_started (by rw [hstart]; exact hstarted)] at hchecked
    rw [run_execute_of_started hstarted] at hrendered
    rw [hchecked, hrendered]
    refine ⟨?_, fun hcode hquiet => ?_⟩
    · show (outcome start _ _ _).code = 0 ↔ (outcome start _ _ _).code = 0
      rw [outcome_code, outcome_code]
      exact perform_check_code_eq_zero_iff start.settings.defaults context context' input format _
    · have hsink : start.sink ≠ .output := fun h => hquiet ⟨start, by rw [hstarted], h⟩
      replace hcode : (outcome start _ _ _).code ≠ 0 := hcode
      rw [outcome_code] at hcode
      show (outcome start _ _ _).output = ""
      rw [outcome_output, if_neg hsink, String.empty_append]
      exact perform_render_output hcode

end

/-! ### A malformed exporter -/

/-- A manifest with an exporter that is no YAML. -/
def malformedManifest : String := "spec:\n  metrics:\n    exporters:\n      debug: 'a: ['\n"

def malformedFiles : FileTree := { files := [(["m.yaml"], malformedManifest)] }

theorem run_read_malformed : (FileTree.access.read "m.yaml").run malformedFiles =
    pure (.ok malformedManifest, malformedFiles) := by
  have hread : malformedFiles.read "m.yaml" = .ok malformedManifest := by
    rw [FileTree.read, FileTree.locate_eq]
    decide +kernel
  rw [← hread]
  rfl

/-- What rendering the manifest reports. -/
def malformedReport (format : OutputFormat) : Traced Report :=
  perform {} ⟨"id", 0⟩ (.render "m.yaml" format) (.ok malformedManifest)

theorem malformedReport_code (format : OutputFormat) : (malformedReport format).value.code = 1 := by
  cases format <;> decide +kernel

/-- However a run starts, if it has the built-in configuration and the files as they are, rendering
the manifest ends with its report. -/
theorem run_execute_malformed {lookup : String → Option String} {filter : LogFilter}
    {sink : LogSink} {format : OutputFormat}
    (h : (startUp .plain FileTree.access lookup ⟨true, none, .render "m.yaml" format⟩).run
      malformedFiles = pure (⟨.ok ⟨{}, .pretty, filter, sink⟩, [.logBegins]⟩, malformedFiles)) :
    let trace := .logBegins :: (malformedReport format).trace
    ((execute .plain FileTree.access lookup ⟨"id", 0⟩ ⟨true, none, .render "m.yaml" format⟩).run
      malformedFiles).1 =
        outcome ⟨{}, .pretty, filter, sink⟩ (filter.text (Library.plain.line .pretty) trace)
          (malformedReport format).value trace := by
  have hread : (FileTree.access.read (Command.render "m.yaml" format).input).run malformedFiles =
      pure (.ok malformedManifest, malformedFiles) := run_read_malformed
  have hreport : perform ({} : Settings).defaults ⟨"id", 0⟩ (.render "m.yaml" format)
      (.ok malformedManifest) = malformedReport format := rfl
  rw [run_execute_of_read h hread hreport]
  generalize malformedReport format = report
  rfl

/-- What is let into the log of a verbose run. -/
def verboseDirectives : LogFilter :=
  ⟨[{ target := some "monitoring_synth", threshold := some .debug }, { threshold := some .info }]⟩

theorem read?_verboseFilter : LogFilter.read? Logging.verboseFilter = some verboseDirectives := by
  rw [LogFilter.read?, show "," = String.singleton ',' from rfl, splitOn_singleton]
  decide +kernel

/-- A verbose run on the manifest starts with its log on the error output, if nothing else is
wanted. -/
theorem startUp_malformed (command : Command) :
    (startUp .plain FileTree.access (fun _ => none) ⟨true, none, command⟩).run malformedFiles =
      pure (⟨.ok ⟨{}, .pretty, verboseDirectives, .errorOutput⟩, [.logBegins]⟩, malformedFiles) :=
  run_startUp_of_begun (run_loadSettings_of_nowhere rfl rfl)
    (run_beginLog_of_no_file read?_verboseFilter rfl)

/-- Both verdicts on a manifest with a malformed exporter. -/
theorem check_code_eq_zero_iff_of_malformed_exporter :
    Arguments.parse ["-v", "check", "--input", "m.yaml"] = .run ⟨true, none, .check "m.yaml"⟩ ∧
      Arguments.parse ["render", "-i=m.yaml", "--format", "yaml", "-v"] =
        .run ⟨true, none, .render "m.yaml" .yaml⟩ ∧
      ¬LogsToOutput .plain FileTree.access (fun _ => none) ⟨true, none, .render "m.yaml" .yaml⟩
        malformedFiles ∧
      let checked := ((run FileTree.access (fun _ => none) ⟨"first", 0⟩
        ["-v", "check", "--input", "m.yaml"]).run malformedFiles).1
      let rendered := ((run FileTree.access (fun _ => none) ⟨"id", 0⟩
        ["render", "-i=m.yaml", "--format", "yaml", "-v"]).run malformedFiles).1
      checked.code ≠ 0 ∧ rendered.code ≠ 0 ∧ rendered.output = "" := by
  have hcheck : Arguments.parse ["-v", "check", "--input", "m.yaml"] =
      .run ⟨true, none, .check "m.yaml"⟩ := by decide
  have hrender : Arguments.parse ["render", "-i=m.yaml", "--format", "yaml", "-v"] =
      .run ⟨true, none, .render "m.yaml" .yaml⟩ := by decide
  have hquiet : ¬LogsToOutput .plain FileTree.access (fun _ => none)
      ⟨true, none, .render "m.yaml" .yaml⟩ malformedFiles := by
    rintro ⟨start, hstart, hsink⟩
    rw [startUp_malformed] at hstart
    obtain rfl := Except.ok.inj hstart
    nomatch hsink
  have hcode : ((run FileTree.access (fun _ => none) ⟨"id", 0⟩
      ["render", "-i=m.yaml", "--format", "yaml", "-v"]).run malformedFiles).1.code ≠ 0 := by
    rw [run, hrender]
    dsimp only
    rw [run_execute_malformed (startUp_malformed _), outcome_code, malformedReport_code]
    exact Nat.one_ne_zero
  obtain ⟨hverdicts, hprinted⟩ := check_code_eq_zero_iff .plain Library.plain.line FileTree.access
    (fun _ => none) malformedFiles ⟨"first", 0⟩ ⟨"id", 0⟩ hcheck hrender
  exact ⟨hcheck, hrender, hquiet, fun h => hcode (hverdicts.mp h), hcode, hprinted hcode hquiet⟩

/-- The log goes to the standard output. -/
def outputLookup (name : String) : Option String :=
  if name = Logging.fileVariable then some "/dev/stdout" else none

theorem startUp_malformed_output (command : Command) :
    (startUp .plain FileTree.access outputLookup ⟨true, none, command⟩).run malformedFiles =
      pure (⟨.ok ⟨{}, .pretty, verboseDirectives, .output⟩, [.logBegins]⟩, malformedFiles) := by
  have hlog : Logging.resolve (some {}) true outputLookup =
      ⟨.pretty, Logging.verboseFilter, some "/dev/stdout"⟩ := by decide +kernel
  have hlocate : malformedFiles.locate "/dev/stdout" = .ok ["dev", "stdout"] := by
    rw [FileTree.locate_eq]
    decide +kernel
  have hparent : FilePath.parent? "/dev/stdout" = some "/dev" := by
    rw [FilePath.parent?, FilePath.names_eq]
    decide +kernel
  have hmade : ∀ directory ∈ FilePath.parent? "/dev/stdout",
      (FileTree.access.makeDirectory directory).run malformedFiles =
        pure (.ok (), malformedFiles) := by
    intro directory hdirectory
    obtain rfl : "/dev" = directory := Option.some.inj (hparent.symm.trans hdirectory)
    show FileTree.change (fun t => t.makeDirectory "/dev") malformedFiles = _
    rw [FileTree.change, FileTree.makeDirectory, FileTree.start, FilePath.names_eq,
      String.contains_char_eq]
    rfl
  have hopened : (FileTree.access.append "/dev/stdout" "").run malformedFiles =
      pure (.ok (), malformedFiles) := by
    have hslash : "/dev/stdout".endsWith "/" = false := by decide +kernel
    show FileTree.change (fun t => t.append "/dev/stdout" "") malformedFiles = _
    rw [FileTree.change, FileTree.append, hlocate, hslash]
    rfl
  have hshown : (FileTree.access.isOutput "/dev/stdout").run malformedFiles =
      pure (true, malformedFiles) := by
    show (malformedFiles.isOutput "/dev/stdout", malformedFiles) = _
    rw [FileTree.isOutput, hlocate]
    rfl
  have hasked : askedFor? outputLookup none = none := by decide
  refine run_startUp_of_begun (run_loadSettings_of_nowhere hasked rfl) ?_
  dsimp only
  rw [hlog]
  exact run_beginLog_of_file read?_verboseFilter rfl (run_openLog hmade hopened hshown)

/-- Where the log goes to the standard output, rendering a malformed exporter does not end well and
leaves there what is noted of it. -/
theorem render_prints_log :
    LogsToOutput .plain FileTree.access outputLookup ⟨true, none, .render "m.yaml" .json⟩
        malformedFiles ∧
      let rendered := ((run FileTree.access outputLookup ⟨"id", 0⟩
        ["-v", "render", "-i", "m.yaml"]).run malformedFiles).1
      rendered.code = 1 ∧ rendered.output ≠ "" := by
  have hrender : Arguments.parse ["-v", "render", "-i", "m.yaml"] =
      .run ⟨true, none, .render "m.yaml" .json⟩ := by decide
  have hlog : verboseDirectives.text (Library.plain.line .pretty)
      (.logBegins :: (malformedReport .json).trace) ≠ "" := by decide +kernel
  refine ⟨⟨_, by rw [startUp_malformed_output]; rfl, rfl⟩, ?_⟩
  rw [run, hrender]
  dsimp only
  rw [run_execute_malformed (startUp_malformed_output _)]
  refine ⟨by rw [outcome_code, malformedReport_code], ?_⟩
  rw [outcome_output, if_pos rfl]
  exact fun hempty => hlog (String.append_eq_empty_iff.mp hempty).1

end Program

end CollectorTemplate
