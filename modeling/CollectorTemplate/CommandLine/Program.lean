/-
The program.

A run reads the configuration, begins the log and carries out a command.  It may be given any files,
any environment and any libraries.

* `Program.run` : a run, in any monad that gives access to files;
* `Program.startUp` : everything before the command;
* `Program.render`, `Program.check` : the commands, given the manifest;
* `Outcome` : what a run leaves behind, apart from the log file.

A configuration file that is asked for must be readable.  One that is only found where it would be
looked for is ignored if it is not, and then a warning is noted, before the log begins.
-/
import CollectorTemplate.CommandLine.Arguments
import CollectorTemplate.CommandLine.Library
import CollectorTemplate.Monitoring.Manifest
import CollectorTemplate.Template.Build

namespace CollectorTemplate

/-- The wording of an error and then that of the error that caused it. -/
def Error.chain (e : Error) : String :=
  match e.source? with
  | none => e.text
  | some cause => e.text ++ ": " ++ cause.text

/-- What a run leaves behind. -/
structure Outcome where
  code : Nat
  /-- What goes to the standard output. -/
  output : String := ""
  /-- What goes to the error output. -/
  complaint : String := ""
  /-- What was seen of the run. -/
  trace : List Emission := []
  deriving Repr, Inhabited

namespace Program

/-- The name and the version. -/
def version : String := "monitoring-synth 0.3.2\n"

/-! ### The configuration -/

/-- The variable that names the configuration file. -/
def configVariable : String := "MONITORING_SYNTH_CONFIG_PATH"

/-- The variables of the environment that a run depends on. -/
def consulted : List String :=
  [configVariable, UserDirectories.homeVariable, UserDirectories.configVariable,
    Logging.formatVariable, Logging.fileVariable, Logging.filterVariable]

/-- The configuration file that is asked for. -/
def askedFor? (lookup : String → Option String) (config : Option String) : Option String :=
  config.or (Logging.notBlank (lookup configVariable))

variable {m : Type → Type} [Monad m]

/-- The configuration in a file.  `cause` tells why a text writes none. -/
def readSettings (files : FileAccess m) (cause : String → String) (path : String) :
    m (Except Error Settings) := do
  match ← files.read path with
  | .error fault => return .error (.operationFailed "read_config_file" (path ++ ": " ++ fault.text))
  | .ok text => return Settings.read text cause

/-- The configuration in the first of files that is there and readable, and else the built-in
one. -/
def findSettings (files : FileAccess m) (cause : String → String) :
    List String → m (Traced Settings)
  | [] => return pure {}
  | path :: paths => do
    if !(← files.isThere path) then findSettings files cause paths
    else
      match ← readSettings files cause path with
      | .ok settings => return pure settings
      | .error fault =>
        let found ← findSettings files cause paths
        return do
          Traced.emit (.event (.ignoredSettings path fault))
          found

/-- The configuration of a run. -/
def loadSettings (library : Library) (files : FileAccess m) (lookup : String → Option String)
    (config : Option String) : m (Traced (Except Error Settings)) := do
  match askedFor? lookup config with
  | some path => return pure (← readSettings files library.settingsCause path)
  | none =>
    return .ok <$> (← findSettings files library.settingsCause (library.settingsPlaces lookup))

/-! ### The log -/

/-- Where the log goes. -/
inductive LogSink
  | errorOutput
  | output
  /-- A file other than the standard output. -/
  | file (path : String)
  deriving Repr, DecidableEq, Inhabited

/-- Makes the log file, with the directories around it, if it is missing. -/
def openLog (files : FileAccess m) (path : String) : m (Except Error LogSink) := do
  let around ←
    match FilePath.parent? path with
    | none => pure (.ok ())
    | some directory => do
      let made ← files.makeDirectory directory
      pure (made.mapError fun fault =>
        .operationFailed "create_log_dir" (directory ++ ": " ++ fault.text))
  match around with
  | .error e => return .error e
  | .ok () =>
    match ← files.append path "" with
    | .error fault => return .error (.operationFailed "open_log_file" (path ++ ": " ++ fault.text))
    | .ok () => return .ok (if ← files.isOutput path then .output else .file path)

/-- What is let into the log and where it goes.  `cause` tells why a text writes no filter. -/
def beginLog (files : FileAccess m) (cause : String → String) (log : Logging) :
    m (Except Error (LogFilter × LogSink)) := do
  match LogFilter.read? log.filter with
  | none =>
    return .error (.operationFailed "observability_init"
      ("invalid log filter '" ++ log.filter ++ "': " ++ cause log.filter))
  | some filter =>
    match log.file with
    | none => return .ok (filter, .errorOutput)
    | some path => return (← openLog files path).map fun sink => (filter, sink)

/-! ### Start-up -/

/-- What a command runs with. -/
structure Start where
  settings : Settings
  format : LogFormat
  filter : LogFilter
  sink : LogSink
  deriving Repr, Inhabited

/-- Everything before the command, or why it fails. -/
def startUp (library : Library) (files : FileAccess m) (lookup : String → Option String)
    (i : Invocation) : m (Traced (Except String Start)) := do
  let loaded ← loadSettings library files lookup i.config
  match loaded.value with
  | .error e => return ⟨.error ("Failed to load configuration: " ++ e.text), loaded.trace⟩
  | .ok settings =>
    let log := Logging.resolve (some settings.logging) i.verbose lookup
    match ← beginLog files library.filterCause log with
    | .error e => return ⟨.error ("Failed to initialize observability: " ++ e.text), loaded.trace⟩
    | .ok (filter, sink) =>
      return ⟨.ok ⟨settings, log.format, filter, sink⟩, loaded.trace ++ [.logBegins]⟩

/-! ### Commands -/

/-- The resource of the manifest at a path, whose file was read. -/
def manifest (path : String) (contents : Except FileFault String) : Except String Monitoring :=
  match contents with
  | .error fault => .error ("failed to read manifest " ++ path ++ ": " ++ fault.text)
  | .ok text =>
    match Monitoring.read text with
    | .error e => .error ("in manifest " ++ path ++ ": " ++ e.error.text)
    | .ok resource => .ok resource

/-- A code and what is printed, or the error that a command ends with. -/
abbrev Report := Except String (Nat × String)

def print (format : OutputFormat) (data : TemplateData) : String :=
  match format with
  | .json => data.toJson
  | .yaml => data.toYaml

/-- Prints the template data of a resource. -/
def render (d : Defaults) (context : ReconcileContext) (format : OutputFormat)
    (resource : Monitoring) : Traced Report := do
  let (built, _) ← (build ⟨.system, d⟩ context false resource).run (({} : Ambient).begin context).2
  match built with
  | .error e => return .error e.chain
  | .ok data => return .ok (0, print format data ++ "\n")

/-- Prints what is wrong with the exporters of a resource. -/
def check (context : ReconcileContext) (resource : Monitoring) : Traced Report := do
  match resource.exporters? with
  | none => return .ok (0, "Metrics are not enabled; no custom exporters to check.\n")
  | some exporters =>
    let problems ← diagnose .system (some context.id) exporters
    if problems.isEmpty then
      return .ok (0, toString exporters.length ++ " custom exporter(s) OK\n")
    else
      let lines := problems.map fun problem => "  - " ++ problem.text ++ "\n"
      return .ok (1, String.join lines ++ toString problems.length ++ " problem(s) found\n")

/-- Carries out a command on a manifest whose file was read. -/
def perform (d : Defaults) (context : ReconcileContext) (command : Command)
    (contents : Except FileFault String) : Traced Report :=
  match command, manifest command.input contents with
  | _, .error text => pure (.error text)
  | .render _ format, .ok resource => render d context format resource
  | .check _, .ok resource => check context resource

/-! ### Runs -/

/-- What a trace adds to the log. -/
def Start.text (start : Start) (library : Library) (trace : List Emission) : String :=
  start.filter.text (library.line start.format) trace

/-- What a command leaves behind.  The log goes to the standard output in front of what is printed,
or to the error output, or neither. -/
def outcome (start : Start) (log : String) (report : Report) (trace : List Emission) : Outcome :=
  let shown := if start.sink = .output then log else ""
  let told := if start.sink = .errorOutput then log else ""
  match report with
  | .error text =>
    { code := 1, output := shown, complaint := told ++ "Error: " ++ text ++ "\n", trace }
  | .ok (code, output) => { code, output := shown ++ output, complaint := told, trace }

/-- A run of a command. -/
def execute (library : Library) (files : FileAccess m) (lookup : String → Option String)
    (context : ReconcileContext) (i : Invocation) : m Outcome := do
  let started ← startUp library files lookup i
  match started.value with
  | .error text => return { code := 1, complaint := text ++ "\n", trace := started.trace }
  | .ok start =>
    let contents ← files.read i.command.input
    let report := perform start.settings.defaults context i.command contents
    let trace := started.trace ++ report.trace
    let log := start.text library trace
    match start.sink with
    | .file path => if log ≠ "" then discard (files.append path log)
    | _ => pure ()
    return outcome start log report.value trace

/-- A run.  `lookup` gives the variables of the environment, and `context` names the
reconciliation. -/
def run (files : FileAccess m) (lookup : String → Option String) (context : ReconcileContext)
    (arguments : List String) (library : Library := .plain) : m Outcome :=
  match Arguments.parse arguments with
  | .misuse => return { code := 2, complaint := library.usage }
  | .version => return { code := 0, output := version }
  | .help => return { code := 0, output := library.usage }
  | .run i => execute library files lookup context i

end Program

end CollectorTemplate
