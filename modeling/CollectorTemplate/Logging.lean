/-
How the log is written.

* `LogFormat.parse` : the format of a name;
* `Logging.resolve` : the log as the configuration, the command line and the environment want it.

The environment wins over the command line, and that over the configuration.  What is blank does not
count.
-/
import CollectorTemplate.Config.Settings
import CollectorTemplate.Text.Blank

namespace CollectorTemplate

/-- How a line of the log looks. -/
inductive LogFormat
  /-- For people to read. -/
  | pretty
  /-- One JSON object a line. -/
  | json
  deriving Repr, DecidableEq, Inhabited

namespace LogFormat

/-- The format of a name in any case, pretty if the name is of no format.  No letter outside ASCII
becomes a letter of the name in lower case, so only those of ASCII are changed. -/
def parse (text : String) : LogFormat :=
  if (Text.trim text.toList).map Char.toLower = "json".toList then json else pretty

end LogFormat

/-- How the log is written. -/
structure Logging where
  format : LogFormat := .pretty
  /-- Which events are written. -/
  filter : String := "info"
  /-- The file that the log is appended to; without one it goes to the error output. -/
  file : Option String := none
  deriving Repr, DecidableEq, Inhabited

namespace Logging

/-- The filter of verbose runs. -/
def verboseFilter : String := "monitoring_synth=debug,info"

/-- The variables of the environment that the log depends on. -/
def formatVariable : String := "MONITORING_SYNTH_LOG_FORMAT"

@[inherit_doc formatVariable]
def fileVariable : String := "MONITORING_SYNTH_LOG_FILE"

@[inherit_doc formatVariable]
def filterVariable : String := "RUST_LOG"

def notBlank (text : Option String) : Option String := text.filter fun t => !Text.isBlank t

/-- The log as the configuration wants it. -/
def ofSettings (settings : LogSettings) : Logging where
  format := (settings.format.map LogFormat.parse).getD .pretty
  filter := (notBlank settings.filter).getD "info"
  file := notBlank settings.file

/-- The log as the configuration, the command line and the environment want it. -/
def resolve (settings : Option LogSettings) (verbose : Bool) (lookup : String → Option String) :
    Logging :=
  let base := (settings.map ofSettings).getD {}
  let filter := if verbose then verboseFilter else base.filter
  { format := ((notBlank (lookup formatVariable)).map LogFormat.parse).getD base.format
    filter := (notBlank (lookup filterVariable)).getD filter
    file := (notBlank (lookup fileVariable)).or base.file }

end Logging

end CollectorTemplate
