/-
Lines of the log.

* `LogFormat.line` : the line of an event, without the time and the spans around it;
* `LogFilter.text` : what a trace adds to a log.
-/
import CollectorTemplate.Json.Writer
import CollectorTemplate.Logging
import CollectorTemplate.Logging.Filter

namespace CollectorTemplate

/-- The line of an event: for people the level, the target, the wording and the details, and
otherwise an object with these. -/
def LogFormat.line (format : LogFormat) (event : Event) : String :=
  match format with
  | .pretty =>
    let details := event.details.map fun (name, value) => ", " ++ name ++ ": " ++ value
    event.level.label ++ " " ++ event.origin.target ++ ": " ++ event.message ++
      String.join details ++ "\n"
  | .json =>
    let details := event.details.map fun (name, value) => (name, Tree.string value)
    let tree : Tree :=
      .mapping [("level", .string event.level.label),
        ("fields", .mapping (("message", .string event.message) :: details)),
        ("target", .string event.origin.target)]
    tree.text ++ "\n"

/-- What a trace adds to a log.  `line` gives the line of an event, and is told how many events are
in the log before it. -/
def LogFilter.text (filter : LogFilter) (line : Nat → Event → String) (trace : List Emission) :
    String :=
  String.join ((filter.admitted trace).mapIdx line)

end CollectorTemplate
