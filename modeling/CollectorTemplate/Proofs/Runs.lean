/-
Runs, step by step.

With files of any kind a run is a function on their state.  It is followed here from the beginning of
the log to what is left behind, with one equation for each step.

* `splitOn_singleton`, `FilePath.names_eq` : what is between the commas of a filter and the slashes of
  a path;
* `FileTree.locate_eq` : the place at the end of a path, in characters;
* `Program.run_openLog` : the log file, and whether it is the standard output;
* `Program.run_startUp_of_begun` : a start from a configuration and a log;
* `Program.run_execute_of_started` : a command that has started reads its manifest, is performed, and
  leaves its log where that goes.
-/
import CollectorTemplate.CommandLine.Program
import Mathlib.Data.String.Basic

namespace CollectorTemplate

/-! ### Paths -/

open String (utf8Len ofList) in
/-- Behind the characters in `l ++ m`, of which those in `m` belong to the word that is read. -/
theorem splitOnAux_singleton (sep : Char) (l m r : List Char) (acc : List String) :
    String.splitOnAux (ofList (l ++ m ++ r)) (String.singleton sep) ⟨utf8Len l⟩
        ⟨utf8Len l + utf8Len m⟩ 0 acc =
      acc.reverse ++ (List.splitOnPPrepend (· == sep) r m.reverse).map ofList := by
  -- By induction on what is left to read; either the word ends or it has a character more.
  induction r generalizing l m acc with
  | nil =>
    have hend : String.Pos.Raw.atEnd (ofList (l ++ m ++ [])) ⟨utf8Len l + utf8Len m⟩ = true := by
      rw [String.atEnd_iff, String.rawEndPos_ofList]
      simp
    rw [String.splitOnAux, hend, String.extract_of_valid]
    simp
  | cons c r ih =>
    have hend :
        String.Pos.Raw.atEnd (ofList (l ++ m ++ c :: r)) ⟨utf8Len l + utf8Len m⟩ = false := by
      have hsize := Char.utf8Size_pos c
      rw [Bool.eq_false_iff, ne_eq, String.atEnd_iff, String.rawEndPos_ofList]
      simp only [String.utf8Len_append, String.utf8Len_cons, String.Pos.Raw.mk_le_mk]
      omega
    have hget := String.get_of_valid (l ++ m) (c :: r)
    have hnext := String.next_of_valid (l ++ m) c r
    rw [String.utf8Len_append] at hget hnext
    have hsep : String.Pos.Raw.get (String.singleton sep) 0 = sep := String.get_of_valid [] [sep]
    have hbehind : String.Pos.Raw.next (String.singleton sep) 0 = ⟨sep.utf8Size⟩ :=
      (String.next_of_valid [] sep []).trans (by simp)
    have hover : String.Pos.Raw.atEnd (String.singleton sep) ⟨sep.utf8Size⟩ = true := by
      rw [String.atEnd_iff]
      show String.rawEndPos (ofList [sep]) ≤ ⟨sep.utf8Size⟩
      rw [String.rawEndPos_ofList]
      simp
    rw [String.splitOnAux]
    simp only [hend, hget, hsep, hbehind, hover, if_true, Bool.false_eq_true, if_false,
      List.headD_cons, beq_iff_eq]
    split_ifs with hc
    · subst hc
      have hback : (⟨utf8Len l + utf8Len m + c.utf8Size⟩ : String.Pos.Raw).unoffsetBy ⟨c.utf8Size⟩ =
          ⟨utf8Len l + utf8Len m⟩ := by simp [String.Pos.Raw.unoffsetBy]
      rw [hnext, hback, String.extract_of_valid]
      simpa [List.splitOnPPrepend_cons_eq_if, Nat.add_assoc] using
        ih (l ++ m ++ [c]) [] (ofList m :: acc)
    · have hback : (⟨utf8Len l + utf8Len m⟩ : String.Pos.Raw).unoffsetBy 0 =
          ⟨utf8Len l + utf8Len m⟩ := rfl
      rw [hback, hnext]
      simpa [List.splitOnPPrepend_cons_eq_if, hc, Nat.add_assoc] using ih l (m ++ [c]) acc

theorem splitOn_singleton (text : String) (sep : Char) :
    text.splitOn (String.singleton sep) = (text.toList.splitOn sep).map String.ofList := by
  have hsep : (String.singleton sep == "") = false := by simp
  rw [String.splitOn, hsep]
  simpa [List.splitOn] using splitOnAux_singleton sep [] [] text.toList []

/-- The names in a path are what is between its slashes. -/
theorem FilePath.names_eq (path : String) :
    names path = (path.toList.splitOn '/').map String.ofList :=
  splitOn_singleton path '/'

/-- The place at the end of a path is found along what is between its slashes, from the root if there
is nothing in front of the first. -/
theorem FileTree.locate_eq (t : FileTree) (path : String) : t.locate path =
    let names := (path.toList.splitOn '/').map String.ofList
    if '\x00' ∈ path.toList then .error .badName
    else if path = "" then .error .notFound
    else if names.head? = some "" then t.follow [] names.tail
    else t.follow t.workingDirectory names := by
  rw [locate, start, FilePath.names_eq, String.contains_char_eq]
  simp only [decide_eq_true_eq]
  generalize (path.toList.splitOn '/').map String.ofList = names
  split_ifs with _ _ habsolute
  · rfl
  · rfl
  · cases names with
    | nil => exact absurd habsolute (Option.some_ne_none _).symm
    | cons first names =>
      obtain rfl := Option.some.inj habsolute
      rfl
  · split
    · exact absurd rfl habsolute
    · rfl

namespace Program

variable {σ : Type} {files : FileAccess (StateM σ)} {library : Library}
  {lookup : String → Option String} {context : ReconcileContext} {i : Invocation} {s s' : σ}

/-! ### The log -/

/-- Opening the log file makes the directories around it and then the file. -/
theorem run_openLog {path : String} {shown : Bool} {t : σ}
    (hmade : ∀ directory ∈ FilePath.parent? path,
      (files.makeDirectory directory).run s = pure (.ok (), s))
    (hopened : (files.append path "").run s = pure (.ok (), s'))
    (hshown : (files.isOutput path).run s' = pure (shown, t)) :
    (openLog files path).run s = pure (.ok (if shown then .output else .file path), t) := by
  rw [openLog]
  cases hparent : FilePath.parent? path with
  | none => simp [hopened, hshown]
  | some directory => simp [hmade directory hparent, hopened, hshown, Except.mapError]

theorem run_beginLog_of_no_file {cause : String → String} {log : Logging} {filter : LogFilter}
    (hfilter : LogFilter.read? log.filter = some filter) (hfile : log.file = none) :
    (beginLog files cause log).run s = pure (.ok (filter, .errorOutput), s) := by
  rw [beginLog, hfilter, hfile]
  rfl

theorem run_beginLog_of_file {cause : String → String} {log : Logging} {filter : LogFilter}
    {path : String} {sink : LogSink} (hfilter : LogFilter.read? log.filter = some filter)
    (hfile : log.file = some path) (hopened : (openLog files path).run s = pure (.ok sink, s')) :
    (beginLog files cause log).run s = pure (.ok (filter, sink), s') := by
  rw [beginLog, hfilter, hfile]
  simp [hopened, Except.map]

/-! ### Starting -/

section

variable {settings : Settings} {trace : List Emission}

/-- Without a file that is asked for, and without places to look at, the built-in configuration is
used. -/
theorem run_loadSettings_of_nowhere {config : Option String}
    (hasked : askedFor? lookup config = none) (hplaces : library.settingsPlaces lookup = []) :
    (loadSettings library files lookup config).run s = pure (⟨.ok {}, []⟩, s) := by
  rw [loadSettings, hasked, hplaces]
  rfl

theorem run_startUp_of_not_loaded {e : Error}
    (h : (loadSettings library files lookup i.config).run s = pure (⟨.error e, trace⟩, s')) :
    (startUp library files lookup i).run s =
      pure (⟨.error ("Failed to load configuration: " ++ e.text), trace⟩, s') := by
  rw [startUp, StateT.run_bind, h, pure_bind]
  rfl

theorem run_startUp_of_begun {t : σ} {filter : LogFilter} {sink : LogSink}
    (h : (loadSettings library files lookup i.config).run s = pure (⟨.ok settings, trace⟩, s'))
    (hbegun : (beginLog files library.filterCause
      (.resolve (some settings.logging) i.verbose lookup)).run s' = pure (.ok (filter, sink), t)) :
    (startUp library files lookup i).run s =
      pure (⟨.ok ⟨settings, (Logging.resolve (some settings.logging) i.verbose lookup).format,
        filter, sink⟩, trace ++ [.logBegins]⟩, t) := by
  rw [startUp, StateT.run_bind, h, pure_bind]
  show (beginLog files library.filterCause _ >>= _ : StateM σ _).run s' = _
  rw [StateT.run_bind, hbegun, pure_bind]
  rfl

theorem run_startUp_of_not_begun {t : σ} {e : Error}
    (h : (loadSettings library files lookup i.config).run s = pure (⟨.ok settings, trace⟩, s'))
    (hbegun : (beginLog files library.filterCause
      (.resolve (some settings.logging) i.verbose lookup)).run s' = pure (.error e, t)) :
    (startUp library files lookup i).run s =
      pure (⟨.error ("Failed to initialize observability: " ++ e.text), trace⟩, t) := by
  rw [startUp, StateT.run_bind, h, pure_bind]
  show (beginLog files library.filterCause _ >>= _ : StateM σ _).run s' = _
  rw [StateT.run_bind, hbegun, pure_bind]
  rfl

/-! ### Commands -/

/-- The files when the log has been written. -/
def logged (files : FileAccess (StateM σ)) (sink : LogSink) (log : String) (s : σ) : σ :=
  match sink with
  | .file path => if log ≠ "" then ((files.append path log).run s).2 else s
  | _ => s

theorem run_execute_of_not_started {text : String}
    (h : (startUp library files lookup i).run s = pure (⟨.error text, trace⟩, s')) :
    (execute library files lookup context i).run s =
      pure ({ code := 1, complaint := text ++ "\n", trace }, s') := by
  rw [execute, StateT.run_bind, h, pure_bind]
  rfl

theorem run_execute_of_started {start : Start}
    (h : (startUp library files lookup i).run s = pure (⟨.ok start, trace⟩, s')) :
    let contents := (files.read i.command.input).run s'
    let report := perform start.settings.defaults context i.command contents.1
    let log := start.text library (trace ++ report.trace)
    (execute library files lookup context i).run s =
      pure (outcome start log report.value (trace ++ report.trace),
        logged files start.sink log contents.2) := by
  intro contents report log
  rw [execute, StateT.run_bind, h, pure_bind]
  show (files.read i.command.input >>= _ : StateM σ Outcome).run s' = _
  rw [StateT.run_bind, show (files.read i.command.input).run s' = pure contents from rfl, pure_bind]
  unfold logged
  cases start.sink with
  | errorOutput => rfl
  | output => rfl
  | file path =>
    dsimp only [log]
    split_ifs
    · rfl
    · rfl

theorem run_execute_of_read {start : Start} {contents : Except FileFault String} {t : σ}
    {report : Traced Report}
    (h : (startUp library files lookup i).run s = pure (⟨.ok start, trace⟩, s'))
    (hread : (files.read i.command.input).run s' = pure (contents, t))
    (hreport : perform start.settings.defaults context i.command contents = report) :
    (execute library files lookup context i).run s =
      pure (outcome start (start.text library (trace ++ report.trace)) report.value
          (trace ++ report.trace),
        logged files start.sink (start.text library (trace ++ report.trace)) t) := by
  subst hreport
  rw [run_execute_of_started h, hread]
  rfl

end

end Program

end CollectorTemplate
