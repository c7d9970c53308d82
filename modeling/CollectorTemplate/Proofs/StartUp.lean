/-
Starting up.

A run looks for its configuration before it begins the log.  So what it notes about the files that
it finds on the way is noted too early, and no log has it.

* `Program.passedOver` : the files that a run finds in the default places and has no use for;
* `Program.run_passes_over` : the warnings of a run tell of these files, each is noted before the
  log begins, and apart from that the run goes on as if the files were not there;
* `Program.run_ignores_broken` : a run that passes over a broken file.

That the log has no warning does not depend on what it lets through: nothing behind its beginning is
one.
-/
import CollectorTemplate.Proofs.Program

namespace CollectorTemplate

theorem Traced.map_eq {α β : Type} (f : α → β) (x : Traced α) : f <$> x = ⟨f x.value, x.trace⟩ :=
  congrArg (mk _) (List.append_nil x.trace)

/-! ### Warnings in a trace -/

/-- The warnings in a trace. -/
def warnings (trace : List Emission) : List Event :=
  trace.filterMap fun
    | .event event => if event.level = .warn then some event else none
    | _ => none

theorem warnings_append (trace trace' : List Emission) :
    warnings (trace ++ trace') = warnings trace ++ warnings trace' :=
  List.filterMap_append

theorem warnings_opened (span : Span) (trace : List Emission) :
    warnings (.opened span :: trace) = warnings trace := rfl

theorem mem_warnings {trace : List Emission} {event : Event} :
    event ∈ warnings trace ↔ .event event ∈ trace ∧ event.level = .warn := by
  rw [warnings, List.mem_filterMap]
  constructor
  · rintro ⟨emission, hmem, h⟩
    cases emission with
    | event noted =>
      by_cases hlevel : noted.level = .warn
      · simp only [hlevel, if_true, Option.some.injEq] at h
        exact h ▸ ⟨hmem, hlevel⟩
      · simp [hlevel] at h
    | _ => simp at h
  · rintro ⟨hmem, hlevel⟩
    exact ⟨.event event, hmem, by simp [hlevel]⟩

/-- What was seen before the log began. -/
def beforeLog (trace : List Emission) : List Emission := trace.takeWhile (· ≠ .logBegins)

/-- Whatever a filter lets through was noted. -/
theorem LogFilter.mem_of_mem_go (filter : LogFilter) {event : Event} (trace : List Emission)
    (opened : List Span) (begun : Bool) (h : event ∈ admitted.go filter opened begun trace) :
    .event event ∈ trace := by
  induction trace generalizing opened begun with
  | nil => exact absurd h List.not_mem_nil
  | cons emission rest ih =>
    cases emission with
    | event noted =>
      rw [admitted.go] at h
      split at h
      · rcases List.mem_cons.mp h with rfl | h
        · exact List.mem_cons_self
        · exact List.mem_cons_of_mem _ (ih opened begun h)
      · exact List.mem_cons_of_mem _ (ih opened begun h)
    | opened span => exact List.mem_cons_of_mem _ (ih (span :: opened) begun h)
    | tagged id => exact List.mem_cons_of_mem _ (ih opened begun h)
    | counted status => exact List.mem_cons_of_mem _ (ih opened begun h)
    | logBegins => exact List.mem_cons_of_mem _ (ih opened true h)

/-! ### Commands do not warn -/

@[simp] theorem warnings_tagWork (ambient : Option String) :
    warnings (tagWork ambient).trace = [] := by
  cases ambient <;> rfl

theorem warnings_parseAll (sources : Sources) : warnings (parseAll sources).trace = [] := by
  induction sources with
  | nil => rfl
  | cons source rest ih =>
    obtain ⟨name, raw⟩ := source
    rw [parseAll]
    cases Fragment.parse raw with
    | error cause => rfl
    | ok tree => simpa [warnings_append] using ih

theorem warnings_assemble (reserved : ReservedNames) (ambient : Option String) (sources : Sources) :
    warnings (assemble reserved ambient sources).trace = [] := by
  rw [assemble]
  simp only [Traced.trace_bind, warnings_append, warnings_tagWork]
  cases sources.find? fun source => reserved.contains source.1 with
  | some source => rfl
  | none =>
    simp only [Traced.trace_bind, warnings_append, warnings_parseAll]
    cases (parseAll sources).value <;> rfl

theorem warnings_diagnose (reserved : ReservedNames) (ambient : Option String) (sources : Sources) :
    warnings (diagnose reserved ambient sources).trace = [] := by
  rw [diagnose]
  simp only [Traced.trace_bind, warnings_append, warnings_tagWork]
  rfl

theorem warnings_build (b : Builder) (context : ReconcileContext) (resource : Monitoring)
    (ambient : Ambient) :
    warnings ((build b context false resource).run ambient).trace = [] := by
  rw [build_run]
  dsimp only
  rw [warnings_opened, warnings_append, warnings_assemble]
  cases (assemble b.reserved (ambient.enter context).2.current?
      (resource.exporters?.getD [])).value with
  | error e => rfl
  | ok assembly => rfl

namespace Program

theorem warnings_render (d : Defaults) (context : ReconcileContext) (format : OutputFormat)
    (resource : Monitoring) : warnings (render d context format resource).trace = [] := by
  rw [render]
  simp only [Traced.trace_bind, warnings_append, warnings_build, List.nil_append]
  cases ((build ⟨.system, d⟩ context false resource).run
    (({} : Ambient).begin context).2).value.1 <;> rfl

theorem warnings_check (context : ReconcileContext) (resource : Monitoring) :
    warnings (check context resource).trace = [] := by
  rw [check]
  cases resource.exporters? with
  | none => rfl
  | some exporters =>
    simp only [Traced.trace_bind, warnings_append, warnings_diagnose, List.nil_append]
    split <;> rfl

/-- Nothing that a command does is warned of. -/
theorem warnings_perform (d : Defaults) (context : ReconcileContext) (command : Command)
    (contents : Except FileFault String) :
    warnings (perform d context command contents).trace = [] := by
  cases hmanifest : manifest command.input contents with
  | error text =>
    rw [perform_of_no_manifest command hmanifest]
    rfl
  | ok resource =>
    cases command with
    | render input format =>
      dsimp only [Command.input] at hmanifest
      rw [perform_render hmanifest, warnings_render]
    | check input =>
      dsimp only [Command.input] at hmanifest
      rw [perform_check hmanifest, warnings_check]

end Program

/-! ### Looking at files -/

namespace FileAccess

variable {σ : Type} {cause : String → String}

/-- Looking at files changes nothing. -/
structure Still (files : FileAccess (StateM σ)) : Prop where
  isThere : ∀ path s, ((files.isThere path).run s).2 = s
  read : ∀ path s, ((files.read path).run s).2 = s

/-- What there is at a path where a configuration file is looked for: nothing, a configuration, or a
file of no use and why. -/
def found? (files : FileAccess (StateM σ)) (cause : String → String) (s : σ) (path : String) :
    Option (Except Error Settings) :=
  if ((files.isThere path).run s).1 then some ((Program.readSettings files cause path).run s).1
  else none

/-- The configuration at a path. -/
def settings? (files : FileAccess (StateM σ)) (cause : String → String) (s : σ) (path : String) :
    Option Settings :=
  match files.found? cause s path with
  | some (.ok settings) => some settings
  | _ => none

/-- Why the file at a path is of no use. -/
def fault? (files : FileAccess (StateM σ)) (cause : String → String) (s : σ) (path : String) :
    Option Error :=
  match files.found? cause s path with
  | some (.error fault) => some fault
  | _ => none

/-- Of the places where a file is looked for, those with a file of no use before the first with a
configuration, with what is wrong. -/
def passedOver (files : FileAccess (StateM σ)) (cause : String → String) (s : σ)
    (places : List String) : List (String × Error) :=
  (places.takeWhile fun path => (files.settings? cause s path).isNone).filterMap fun path =>
    (files.fault? cause s path).map fun fault => (path, fault)

/-- The files, but with nothing to be found at some paths. -/
def hide {m : Type → Type} [Monad m] (files : FileAccess m) (hidden : List String) : FileAccess m :=
  { files with isThere := fun path => if path ∈ hidden then pure false else files.isThere path }

theorem hide_nil {m : Type → Type} [Monad m] (files : FileAccess m) : files.hide [] = files := by
  simp [hide]

section

variable {files : FileAccess (StateM σ)} {s : σ}

theorem Still.run_readSettings (h : files.Still) (path : String) :
    (Program.readSettings files cause path).run s =
      pure (((Program.readSettings files cause path).run s).1, s) := by
  refine Prod.ext rfl ?_
  have hread := h.read path s
  rw [Program.readSettings, StateT.run_bind]
  revert hread
  generalize (files.read path).run s = result
  obtain ⟨contents, after⟩ := result
  cases contents with
  | error fault => exact id
  | ok text => exact id

theorem Still.hide (h : files.Still) (hidden : List String) : (files.hide hidden).Still := by
  refine ⟨fun path s => ?_, h.read⟩
  simp only [FileAccess.hide]
  split
  · rfl
  · exact h.isThere path s

theorem found?_hide (hidden : List String) (path : String) :
    (files.hide hidden).found? cause s path =
      if path ∈ hidden then none else files.found? cause s path := by
  simp only [found?, FileAccess.hide]
  split
  · rfl
  · rfl

theorem passedOver_cons (path : String) (rest : List String) :
    files.passedOver cause s (path :: rest) =
      match files.found? cause s path with
      | none => files.passedOver cause s rest
      | some (.ok _) => []
      | some (.error fault) => (path, fault) :: files.passedOver cause s rest := by
  simp only [passedOver, List.takeWhile_cons, settings?]
  cases hfound : files.found? cause s path with
  | none => simp [fault?, hfound]
  | some found => cases found <;> simp [fault?, hfound]

theorem settings?_of_fault? {path : String} {fault : Error}
    (h : files.fault? cause s path = some fault) : files.settings? cause s path = none := by
  unfold fault? at h
  unfold settings?
  split at h
  · rename_i hfound
    rw [hfound]
  · exact nomatch h

/-- No file that is passed over has a configuration. -/
theorem settings?_of_mem_passedOver {places : List String} :
    ∀ path ∈ (files.passedOver cause s places).map Prod.fst,
      files.settings? cause s path = none := by
  refine List.forall_mem_map.mpr fun passed hmem => ?_
  obtain ⟨path, -, hpath⟩ := List.mem_filterMap.mp hmem
  obtain ⟨cause, hfault, rfl⟩ := Option.map_eq_some_iff.mp hpath
  exact settings?_of_fault? hfault

/-- With files of no use out of sight the configurations are the same. -/
theorem settings?_hide {hidden : List String}
    (h : ∀ path ∈ hidden, files.settings? cause s path = none) :
    (files.hide hidden).settings? cause s = files.settings? cause s := by
  funext path
  by_cases hmem : path ∈ hidden
  · rw [h path hmem, settings?, found?_hide, if_pos hmem]
  · rw [settings?, found?_hide, if_neg hmem, ← settings?]

theorem passedOver_hide (places : List String) :
    (files.hide ((files.passedOver cause s places).map Prod.fst)).passedOver cause s places =
      [] := by
  rw [passedOver, settings?_hide settings?_of_mem_passedOver, List.filterMap_eq_nil_iff]
  intro path hpath
  rw [fault?, found?_hide]
  split_ifs with hmem
  · rfl
  · -- A file of no use would be among those that are out of sight.
    rw [← fault?]
    cases hfault : files.fault? cause s path with
    | none => rfl
    | some fault =>
      refine absurd (List.mem_map.mpr ⟨(path, fault), ?_, rfl⟩) hmem
      exact List.mem_filterMap.mpr ⟨path, hpath, by rw [hfault]; rfl⟩

end

end FileAccess

/-- What a run leaves behind, with something seen before the rest. -/
def Outcome.behind (outcome : Outcome) (trace : List Emission) : Outcome :=
  { outcome with trace := trace ++ outcome.trace }

namespace Program

variable {σ : Type} {files : FileAccess (StateM σ)} {cause : String → String}

/-! ### Finding the configuration -/

theorem run_findSettings_cons (h : files.Still) (s : σ) (path : String) (rest : List String) :
    (findSettings files cause (path :: rest)).run s =
      match files.found? cause s path with
      | none => (findSettings files cause rest).run s
      | some (.ok settings) => pure (pure settings, s)
      | some (.error fault) => do
        let (found, after) ← (findSettings files cause rest).run s
        return (do Traced.emit (.event (.ignoredSettings path fault)); found, after) := by
  have hthere : (files.isThere path).run s = pure (((files.isThere path).run s).1, s) :=
    Prod.ext rfl (h.isThere path s)
  rw [findSettings, StateT.run_bind, hthere, pure_bind, FileAccess.found?]
  cases ((files.isThere path).run s).1 with
  | false => rfl
  | true =>
    show (readSettings files cause path >>= _ : StateM σ (Traced Settings)).run s = _
    rw [StateT.run_bind, h.run_readSettings, pure_bind, if_pos rfl]
    cases ((readSettings files cause path).run s).1 with
    | ok settings => rfl
    | error fault => rfl

/-- What is noted of files that are passed over. -/
def notes (passed : List (String × Error)) : List Emission :=
  passed.map fun file => .event (.ignoredSettings file.1 file.2)

theorem notes_nil : notes [] = [] := rfl

/-- Finding the configuration changes nothing, takes the first there is, and notes the files that
are passed over. -/
theorem run_findSettings (h : files.Still) (s : σ) (places : List String) :
    (findSettings files cause places).run s =
      pure (⟨(places.findSome? (files.settings? cause s)).getD {},
        notes (files.passedOver cause s places)⟩, s) := by
  induction places with
  | nil => rfl
  | cons path rest ih =>
    rw [run_findSettings_cons h, FileAccess.passedOver_cons, List.findSome?_cons,
      FileAccess.settings?]
    cases files.found? cause s path with
    | none => exact ih
    | some found =>
      cases found with
      | ok settings => rfl
      | error fault =>
        dsimp only
        rw [ih, pure_bind]
        rfl

/-- With the files that are passed over out of sight, the same configuration is found and nothing is
noted. -/
theorem run_findSettings_hide (h : files.Still) (s : σ) (places : List String) :
    (findSettings (files.hide ((files.passedOver cause s places).map Prod.fst)) cause places).run s =
      pure (⟨(places.findSome? (files.settings? cause s)).getD {}, []⟩, s) := by
  rw [run_findSettings (h.hide _), FileAccess.passedOver_hide, FileAccess.settings?_hide]
  · rfl
  · exact FileAccess.settings?_of_mem_passedOver

/-! ### Runs -/

section

variable {library : Library} {lookup : String → Option String} {context : ReconcileContext}
  {i : Invocation} {s s' : σ} {settings : Settings} {trace : List Emission}

/-- How a run goes on that has its configuration, without what was noted meanwhile. -/
def goesOn (library : Library) (files : FileAccess (StateM σ)) (lookup : String → Option String)
    (context : ReconcileContext) (i : Invocation) (settings : Settings) (s : σ) : Outcome × σ :=
  let log := Logging.resolve (some settings.logging) i.verbose lookup
  let begins := (beginLog files library.filterCause log).run s
  match begins.1 with
  | .error e =>
    ({ code := 1, complaint := "Failed to initialize observability: " ++ e.text ++ "\n" }, begins.2)
  | .ok (filter, sink) =>
    let start : Start := ⟨settings, log.format, filter, sink⟩
    let contents := (files.read i.command.input).run begins.2
    let report := perform settings.defaults context i.command contents.1
    let trace := .logBegins :: report.trace
    (outcome start (start.text library trace) report.value trace,
      logged files sink (start.text library trace) contents.2)

/-- What is noted before the log begins is not in it. -/
theorem admitted_notes_append (filter : LogFilter) (passed : List (String × Error))
    (trace : List Emission) :
    filter.admitted (notes passed ++ trace) = filter.admitted trace := by
  induction passed with
  | nil => rfl
  | cons file rest ih => exact ih

theorem text_notes_append (start : Start) (library : Library) (passed : List (String × Error))
    (trace : List Emission) :
    start.text library (notes passed ++ trace) = start.text library trace := by
  rw [Start.text, Start.text, LogFilter.text, LogFilter.text, admitted_notes_append]

theorem outcome_notes_append (start : Start) (log : String) (report : Report)
    (passed : List (String × Error)) (trace : List Emission) :
    outcome start log report (notes passed ++ trace) =
      (outcome start log report trace).behind (notes passed) := by
  cases report <;> rfl

theorem outcome_trace (start : Start) (log : String) (report : Report) (trace : List Emission) :
    (outcome start log report trace).trace = trace := by
  cases report <;> rfl

theorem run_loadSettings {config : Option String} {found : Traced Settings}
    (hnone : askedFor? lookup config = none)
    (h : (findSettings files library.settingsCause (library.settingsPlaces lookup)).run s =
      pure (found, s)) :
    (loadSettings library files lookup config).run s = pure (⟨.ok found.value, found.trace⟩, s) := by
  rw [loadSettings, hnone]
  show (findSettings files library.settingsCause _ >>= _ : StateM σ _).run s = _
  rw [StateT.run_bind, h, pure_bind, Traced.map_eq]
  rfl

/-- What was noted before a run has its configuration changes nothing of what follows. -/
theorem run_execute_of_loaded {passed : List (String × Error)}
    (h : (loadSettings library files lookup i.config).run s =
      pure (⟨.ok settings, notes passed⟩, s)) :
    (execute library files lookup context i).run s =
      pure ((goesOn library files lookup context i settings s).1.behind (notes passed),
        (goesOn library files lookup context i settings s).2) := by
  rw [goesOn]
  -- The notes stand in front of whatever follows, also where the log cannot begin.
  rcases hbegun : (beginLog files library.filterCause
    (.resolve (some settings.logging) i.verbose lookup)).run s with ⟨begun, s'⟩
  cases begun with
  | error e =>
    rw [run_execute_of_not_started (run_startUp_of_not_begun h hbegun)]
    simp [Outcome.behind]
  | ok begun =>
    obtain ⟨filter, sink⟩ := begun
    rw [run_execute_of_started (run_startUp_of_begun h hbegun), List.append_assoc,
      text_notes_append, outcome_notes_append]
    rfl

/-- Nothing is noted before the log begins, and no warning after that. -/
theorem goesOn_trace (settings : Settings) :
    beforeLog (goesOn library files lookup context i settings s).1.trace = [] ∧
      warnings (goesOn library files lookup context i settings s).1.trace = [] := by
  rw [goesOn]
  dsimp only
  cases ((beginLog files library.filterCause
      (Logging.resolve (some settings.logging) i.verbose lookup)).run s).1 with
  | error e => exact ⟨rfl, rfl⟩
  | ok begun =>
    dsimp only
    rw [outcome_trace]
    exact ⟨rfl, warnings_perform _ _ _ _⟩

theorem run_execute_of_not_loaded {e : Error}
    (h : (loadSettings library files lookup i.config).run s = pure (⟨.error e, trace⟩, s)) :
    (execute library files lookup context i).run s =
      pure (⟨1, "", "Failed to load configuration: " ++ e.text ++ "\n", trace⟩, s) :=
  run_execute_of_not_started (run_startUp_of_not_loaded h)

end

/-- The files that a run finds in the default places and has no use for.  If a file is asked for,
none is looked for. -/
def passedOver (library : Library) (files : FileAccess (StateM σ)) (lookup : String → Option String)
    (arguments : List String) (s : σ) : List (String × Error) :=
  match Arguments.parse arguments with
  | .run i =>
    match askedFor? lookup i.config with
    | none => files.passedOver library.settingsCause s (library.settingsPlaces lookup)
    | some _ => []
  | _ => []

theorem run_loadSettings_of_asked (h : files.Still) {library : Library}
    {lookup : String → Option String} {config : Option String} {path : String}
    (hasked : askedFor? lookup config = some path) (s : σ) :
    (loadSettings library files lookup config).run s =
      pure (⟨((readSettings files library.settingsCause path).run s).1, []⟩, s) := by
  rw [loadSettings, hasked]
  show (readSettings files library.settingsCause path >>= _ : StateM σ _).run s = _
  rw [StateT.run_bind, h.run_readSettings, pure_bind]
  rfl

theorem run_split (h : files.Still) (library : Library) (lookup : String → Option String)
    (context : ReconcileContext) (arguments : List String) (s : σ) :
    ∃ rest s', (run files lookup context arguments library).run s =
        pure (rest.behind (notes (passedOver library files lookup arguments s)), s') ∧
      (run (files.hide ((passedOver library files lookup arguments s).map Prod.fst)) lookup context
        arguments library).run s = pure (rest, s') ∧
      beforeLog rest.trace = [] ∧ warnings rest.trace = [] := by
  rw [run, run, passedOver]
  cases Arguments.parse arguments with
  | misuse => exact ⟨_, s, rfl, rfl, rfl, rfl⟩
  | version => exact ⟨_, s, rfl, rfl, rfl, rfl⟩
  | help => exact ⟨_, s, rfl, rfl, rfl, rfl⟩
  | run i =>
    dsimp only
    cases hasked : askedFor? lookup i.config with
    | some path =>
      -- Nothing is looked for, so nothing is hidden and both runs are the same.
      have hload := @run_loadSettings_of_asked _ _ h library _ _ _ hasked s
      rw [List.map_nil, files.hide_nil]
      cases hread : ((readSettings files library.settingsCause path).run s).1 with
      | error e =>
        rw [hread] at hload
        exact ⟨_, _, run_execute_of_not_loaded hload, run_execute_of_not_loaded hload, rfl, rfl⟩
      | ok settings =>
        rw [hread, ← notes_nil] at hload
        exact ⟨_, _, run_execute_of_loaded hload, run_execute_of_loaded hload, goesOn_trace _⟩
    | none =>
      have hload := run_loadSettings hasked (run_findSettings h s (library.settingsPlaces lookup))
      have hhide :=
        run_loadSettings hasked (run_findSettings_hide h s (library.settingsPlaces lookup))
      rw [← notes_nil] at hhide
      exact ⟨_, _, run_execute_of_loaded hload, run_execute_of_loaded hhide, goesOn_trace _⟩

theorem beforeLog_notes_append (passed : List (String × Error)) (trace : List Emission) :
    beforeLog (notes passed ++ trace) = notes passed ++ beforeLog trace :=
  List.takeWhile_append_of_pos (List.forall_mem_map.mpr fun _ _ => rfl)

theorem warnings_notes (passed : List (String × Error)) :
    warnings (notes passed) = passed.map fun file => .ignoredSettings file.1 file.2 := by
  simp [warnings, notes, Event.level, List.filterMap_map]

/-- In every run, with any files and libraries, the warnings tell of the files in the default places
that are of no use and are passed over, and all of them come before the log begins.  No filter lets
any into the log, and the run leaves the same behind as if those files were not there: the same
code, output, complaint and files.  So nothing is warned of too early just if no file is passed
over.  If a file is asked for that is of no use, the run fails. -/
theorem run_passes_over (h : files.Still) (library : Library) (lookup : String → Option String)
    (context : ReconcileContext) (arguments : List String) (s : σ) :
    let passed := passedOver library files lookup arguments s
    let ran := (run files lookup context arguments library).run s
    let without := (run (files.hide (passed.map Prod.fst)) lookup context arguments library).run s
    (warnings (beforeLog ran.1.trace) = [] ↔ passed = []) ∧
      beforeLog ran.1.trace = notes passed ∧
      warnings ran.1.trace = passed.map (fun file => .ignoredSettings file.1 file.2) ∧
      (∀ filter : LogFilter, ∀ event ∈ filter.admitted ran.1.trace, event.level ≠ .warn) ∧
      ran = (without.1.behind (notes passed), without.2) ∧
      ∀ i path e, Arguments.parse arguments = .run i → askedFor? lookup i.config = some path →
        ((readSettings files library.settingsCause path).run s).1 = .error e →
        ran.1.code = 1 ∧ ran.1.complaint = "Failed to load configuration: " ++ e.text ++ "\n" := by
  intro passed ran without
  obtain ⟨rest, s', (hran : ran = _), (hwithout : without = _), hbefore, hwarnings⟩ :=
    run_split h library lookup context arguments s
  have hbeforeLog : beforeLog ran.1.trace = notes passed := by
    rw [hran]
    show beforeLog (notes passed ++ rest.trace) = notes passed
    rw [beforeLog_notes_append, hbefore, List.append_nil]
  refine ⟨?_, hbeforeLog, ?_, fun filter event hevent hlevel => ?_, ?_,
    fun i path e hparse hasked hread => ?_⟩
  · rw [hbeforeLog, warnings_notes, List.map_eq_nil_iff]
  · rw [hran]
    show warnings (notes passed ++ rest.trace) = _
    rw [warnings_append, warnings_notes, hwarnings, List.append_nil]
  · rw [hran] at hevent
    replace hevent : event ∈ filter.admitted (notes passed ++ rest.trace) := hevent
    rw [admitted_notes_append] at hevent
    -- What the log has was noted behind its beginning, where there is no warning.
    have hmem : event ∈ warnings rest.trace :=
      mem_warnings.mpr ⟨filter.mem_of_mem_go rest.trace [] false hevent, hlevel⟩
    exact List.not_mem_nil (hwarnings ▸ hmem)
  · rw [hran, hwithout]
    rfl
  · have hload := @run_loadSettings_of_asked _ _ h library _ _ _ hasked s
    rw [hread] at hload
    have hfails :
        ran = pure (⟨1, "", "Failed to load configuration: " ++ e.text ++ "\n", []⟩, s) := by
      show (run files lookup context arguments library).run s = _
      rw [run, hparse]
      exact run_execute_of_not_loaded hload
    rw [hfails]
    exact ⟨rfl, rfl⟩

/-! ### A broken file -/

theorem still_access : FileTree.access.Still := ⟨fun _ _ => rfl, fun _ _ => rfl⟩

def brokenPlace : String := "/home/.config/monitoring-synth/config.toml"

/-- A broken file in the default place, and a manifest. -/
def brokenSettings : FileTree :=
  { workingDirectory := ["work"]
    files := [(["work", "m.yaml"], "kind: Monitoring\n"),
      (["home", ".config", "monitoring-synth", "config.toml"], "defaults =")] }

/-- The log goes to a file, and warnings are let through. -/
def brokenLookup (name : String) : Option String :=
  if name = UserDirectories.homeVariable then some "/home"
  else if name = Logging.filterVariable then some "warn"
  else if name = Logging.fileVariable then some "synth.log"
  else none

theorem found?_broken : ∃ fault, FileAccess.found? FileTree.access Library.plain.settingsCause
    brokenSettings brokenPlace = some (.error fault) := by
  have hthere : brokenSettings.isThere brokenPlace = true := by
    rw [FileTree.isThere, FileTree.locate_eq]
    decide +kernel
  have hread : brokenSettings.read brokenPlace = .ok "defaults =" := by
    rw [FileTree.read, FileTree.locate_eq]
    decide +kernel
  have hnone : Settings.read? "defaults =" = none := by
    rw [← Option.isNone_iff_eq_none]
    decide +kernel
  refine ⟨.operationFailed "parse_config_file" (Library.plain.settingsCause "defaults ="), ?_⟩
  have hsettings : (readSettings FileTree.access Library.plain.settingsCause brokenPlace).run
      brokenSettings = pure (Settings.read "defaults =" Library.plain.settingsCause,
        brokenSettings) := by
    have hrun : (FileTree.access.read brokenPlace).run brokenSettings =
        pure (brokenSettings.read brokenPlace, brokenSettings) := rfl
    rw [readSettings, StateT.run_bind, hrun, hread, pure_bind]
    rfl
  rw [FileAccess.found?, hsettings, Settings.read, hnone]
  exact if_pos hthere

/-- With nothing else set, both default places are below the home directory. -/
theorem settingsPlaces_broken :
    Library.plain.settingsPlaces brokenLookup = [brokenPlace, brokenPlace] := by
  decide +kernel

theorem passedOver_broken : ∃ fault, FileAccess.passedOver FileTree.access
    Library.plain.settingsCause brokenSettings (Library.plain.settingsPlaces brokenLookup) =
      [(brokenPlace, fault), (brokenPlace, fault)] := by
  obtain ⟨fault, hfound⟩ := found?_broken
  refine ⟨fault, ?_⟩
  rw [settingsPlaces_broken, FileAccess.passedOver_cons, FileAccess.passedOver_cons, hfound]
  rfl

/-- Files are passed over, and the run on them, apart from what it notes first, is the one without
them. -/
theorem run_passes_over_broken :
    FileTree.access.Still ∧
      let arguments := ["check", "-i", "m.yaml"]
      let passed := passedOver .plain FileTree.access brokenLookup arguments brokenSettings
      let ran := (run FileTree.access brokenLookup ⟨"id", 0⟩ arguments).run brokenSettings
      let without := (run (FileTree.access.hide (passed.map Prod.fst)) brokenLookup ⟨"id", 0⟩
        arguments).run brokenSettings
      passed.map Prod.fst = [brokenPlace, brokenPlace] ∧
        warnings (beforeLog ran.1.trace) ≠ [] ∧
        beforeLog ran.1.trace = notes passed ∧
        ran = (without.1.behind (notes passed), without.2) := by
  obtain ⟨hnone, hbefore, -, -, hran, -⟩ :=
    run_passes_over still_access .plain brokenLookup ⟨"id", 0⟩ ["check", "-i", "m.yaml"]
      brokenSettings
  have hplaces : (passedOver .plain FileTree.access brokenLookup ["check", "-i", "m.yaml"]
      brokenSettings).map Prod.fst = [brokenPlace, brokenPlace] := by
    obtain ⟨fault, hpassed⟩ := passedOver_broken
    have hparse : Arguments.parse ["check", "-i", "m.yaml"] =
        .run ⟨false, none, .check "m.yaml"⟩ := by decide
    have hasked : askedFor? brokenLookup none = none := by decide
    rw [passedOver, hparse]
    dsimp only
    rw [hasked]
    dsimp only
    rw [hpassed]
    rfl
  refine ⟨still_access, hplaces, fun hempty => ?_, hbefore, hran⟩
  rw [hnone.mp hempty] at hplaces
  nomatch hplaces

/-- The files when the log is there too. -/
def brokenBegun : FileTree :=
  { brokenSettings with files := brokenSettings.files ++ [(["work", "synth.log"], "")] }

theorem run_beginLog_broken (cause : String → String) :
    (beginLog FileTree.access cause ⟨.pretty, "warn", some "synth.log"⟩).run brokenSettings =
      pure (.ok (⟨[{ threshold := some .warn }]⟩, .file "synth.log"), brokenBegun) := by
  have hfilter : LogFilter.read? "warn" = some ⟨[{ threshold := some .warn }]⟩ := by
    rw [LogFilter.read?, show "," = String.singleton ',' from rfl, splitOn_singleton]
    decide +kernel
  have hparent : FilePath.parent? "synth.log" = none := by
    rw [FilePath.parent?, FilePath.names_eq]
    decide +kernel
  have hopened : (FileTree.access.append "synth.log" "").run brokenSettings =
      pure (.ok (), brokenBegun) := by
    have hlocate : brokenSettings.locate "synth.log" = .ok ["work", "synth.log"] := by
      rw [FileTree.locate_eq]
      decide +kernel
    have hslash : "synth.log".endsWith "/" = false := by decide +kernel
    show FileTree.change (fun t => t.append "synth.log" "") brokenSettings = _
    rw [FileTree.change, FileTree.append, hlocate, hslash]
    rfl
  have hshown : (FileTree.access.isOutput "synth.log").run brokenBegun =
      pure (false, brokenBegun) := by
    have hlocate : brokenBegun.locate "synth.log" = .ok ["work", "synth.log"] := by
      rw [FileTree.locate_eq]
      decide +kernel
    show (brokenBegun.isOutput "synth.log", brokenBegun) = _
    rw [FileTree.isOutput, hlocate]
    rfl
  refine run_beginLog_of_file hfilter rfl (run_openLog (fun directory hdirectory => ?_) hopened
    hshown)
  rw [hparent] at hdirectory
  exact absurd hdirectory (Option.not_mem_none _)

theorem run_loadSettings_broken : ∃ passed, passed.map Prod.fst = [brokenPlace, brokenPlace] ∧
    (loadSettings .plain FileTree.access brokenLookup none).run brokenSettings =
      pure (⟨.ok {}, notes passed⟩, brokenSettings) := by
  obtain ⟨fault, hfound⟩ := found?_broken
  obtain ⟨fault', hpassed⟩ := passedOver_broken
  refine ⟨_, congrArg (List.map Prod.fst) hpassed, ?_⟩
  rw [run_loadSettings (by decide) (run_findSettings still_access brokenSettings _),
    settingsPlaces_broken]
  simp [FileAccess.settings?, hfound]

theorem perform_broken : perform {} ⟨"id", 0⟩ (.check "m.yaml") (.ok "kind: Monitoring\n") =
    pure (.ok (0, "Metrics are not enabled; no custom exporters to check.\n")) := by
  obtain ⟨resource, hresource, hexporters⟩ : ∃ resource,
      Monitoring.read "kind: Monitoring\n" = .ok resource ∧ resource.exporters? = none := by
    have hread : (Monitoring.read "kind: Monitoring\n").toOption.any
        (fun resource => resource.exporters?.isNone) := by decide +kernel
    cases hresource : Monitoring.read "kind: Monitoring\n" with
    | error e => simp [hresource, Except.toOption] at hread
    | ok resource => exact ⟨resource, rfl, by simpa [hresource, Except.toOption] using hread⟩
  have hmanifest : manifest "m.yaml" (.ok "kind: Monitoring\n") = .ok resource := by
    rw [manifest, hresource]
  rw [perform_check hmanifest, check, hexporters]

/-- A broken file is warned of before the log begins, here even twice, since both default places
are the same.  The run ends well, prints what it prints without the file, and leaves nothing in the
log. -/
theorem run_ignores_broken :
    let ran := (run FileTree.access brokenLookup ⟨"id", 0⟩ ["check", "-i", "m.yaml"]).run
      brokenSettings
    (warnings (beforeLog ran.1.trace)).map Event.message =
        ["Ignoring unreadable config file", "Ignoring unreadable config file"] ∧
      ran.1.code = 0 ∧
      ran.1.output = "Metrics are not enabled; no custom exporters to check.\n" ∧
      ran.1.complaint = "" ∧ ran.2.read "synth.log" = .ok "" := by
  intro ran
  obtain ⟨passed, hpassed, hload⟩ := run_loadSettings_broken
  have hlog : Logging.resolve (some ({} : Settings).logging) false brokenLookup =
      ⟨.pretty, "warn", some "synth.log"⟩ := by decide +kernel
  have hread : (FileTree.access.read "m.yaml").run brokenBegun =
      pure (.ok "kind: Monitoring\n", brokenBegun) := by
    have hcontents : brokenBegun.read "m.yaml" = .ok "kind: Monitoring\n" := by
      rw [FileTree.read, FileTree.locate_eq]
      decide +kernel
    rw [← hcontents]
    rfl
  have hlogged : brokenBegun.read "synth.log" = .ok "" := by
    rw [FileTree.read, FileTree.locate_eq]
    decide +kernel
  have hbegun := run_beginLog_broken Library.plain.filterCause
  rw [← hlog] at hbegun
  have hran : ran = _ := run_execute_of_read
    (@run_startUp_of_begun _ _ _ _ ⟨false, none, .check "m.yaml"⟩ _ _ _ _ _ _ _ hload hbegun)
    hread perform_broken
  rw [List.append_assoc, text_notes_append, outcome_notes_append] at hran
  have hmessages : (warnings (beforeLog (notes passed ++ [.logBegins]))).map Event.message =
      (passed.map Prod.fst).map fun _ => "Ignoring unreadable config file" := by
    rw [beforeLog_notes_append, warnings_append, warnings_notes]
    simp [beforeLog, warnings, Event.message, Function.comp_def]
  rw [hpassed] at hmessages
  rw [hran]
  exact ⟨hmessages, rfl, rfl, rfl, hlogged⟩

end Program

end CollectorTemplate
