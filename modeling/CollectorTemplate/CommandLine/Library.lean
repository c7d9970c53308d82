/-
What the program has from libraries.

Libraries know the directories of the user, explain how the program is called, tell what is wrong
with a configuration or a filter, and write the lines of the log.  A run takes all of this as it is
given; `Library.plain` does with the variables of the environment and short texts.

* `Library` : what a run is given;
* `Library.settingsPlaces` : where a configuration is looked for.
-/
import CollectorTemplate.CommandLine.Files
import CollectorTemplate.Config.File
import CollectorTemplate.Logging.Line

namespace CollectorTemplate

/-- The directories of the user. -/
structure UserDirectories where
  home : String
  /-- The directory of configurations. -/
  config : String
  deriving Repr, DecidableEq, Inhabited

namespace UserDirectories

/-- The variable that names the home directory. -/
def homeVariable : String := "HOME"

/-- The variable that names the directory of configurations. -/
def configVariable : String := "XDG_CONFIG_HOME"

/-- The directories as far as the environment tells them.  There are none if it does not tell the
home directory. -/
def ofEnvironment (lookup : String → Option String) : Option UserDirectories :=
  match lookup homeVariable with
  | none | some "" => none
  | some home =>
    let config := (lookup configVariable).filter fun path => path.startsWith "/"
    some ⟨home, config.getD (FilePath.join home ".config")⟩

end UserDirectories

/-- What a run has from libraries. -/
structure Library where
  /-- The directories of the user, given the variables of the environment. -/
  directories? : (String → Option String) → Option UserDirectories
  /-- How the program is called. -/
  usage : String
  /-- Why a text writes no configuration. -/
  settingsCause : String → String
  /-- Why a text writes no filter. -/
  filterCause : String → String
  /-- The line of an event in the log, given how many events are there before it. -/
  line : LogFormat → Nat → Event → String

namespace Library

/-- Where a configuration file is looked for, if none is asked for. -/
def settingsPlaces (library : Library) (lookup : String → Option String) : List String :=
  match library.directories? lookup with
  | none => []
  | some directories =>
    [directories.config, FilePath.join directories.home ".config"].map fun directory =>
      FilePath.join (FilePath.join directory "monitoring-synth") "config.toml"

/-- Texts in place of those of the libraries, and the directories that the environment tells. -/
def plain : Library where
  directories? := UserDirectories.ofEnvironment
  usage :=
    "Usage: monitoring-synth [-v|--verbose] [-c|--config <CONFIG>] <COMMAND>\n\n" ++
    "Commands, each on a manifest:\n" ++
    "  render -i|--input <INPUT> [-f|--format <json|yaml>]  Print the template data of it\n" ++
    "  check -i|--input <INPUT>                             Print what is wrong with it\n"
  settingsCause := Settings.plainCause
  filterCause _ := "a directive is malformed"
  line format _ event := format.line event

instance : Inhabited Library := ⟨plain⟩

end Library

end CollectorTemplate
