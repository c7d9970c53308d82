/-
Why template data cannot be built.

* `Error` : the causes;
* `Error.text` : the wording;
* `Error.exporter?` : the exporter that is at fault, if one is.
-/
import CollectorTemplate.Fragment
import CollectorTemplate.Reserved

namespace CollectorTemplate

/-- Why template data cannot be built. -/
inductive Error
  /-- An exporter has a name that is reserved. -/
  | reservedName (name : String)
  /-- The fragment of an exporter cannot be parsed. -/
  | invalidYaml (exporter : String) (cause : SyntaxError)
  /-- The reconciliation was cancelled. -/
  | cancelled (reconcileId : String)
  /-- A manifest or an option is malformed. -/
  | invalidInput (reason : String)
  /-- Something around the work went wrong: a file, the configuration or the log. -/
  | operationFailed (operation cause : String)
  deriving Repr, DecidableEq, Inhabited

namespace Error

def text : Error → String
  | reservedName name => "exporter name '" ++ name ++ "' is reserved and cannot be used"
  | invalidYaml exporter cause => "exporter '" ++ exporter ++ "': " ++ cause.text
  | cancelled id => "reconciliation '" ++ id ++ "' cancelled before exporter assembly"
  | invalidInput reason => "invalid input: " ++ reason
  | operationFailed operation cause => "operation '" ++ operation ++ "' failed: " ++ cause

/-- The exporter that is at fault. -/
def exporter? : Error → Option String
  | reservedName name => some name
  | invalidYaml exporter _ => some exporter
  | _ => none

/-- Whether a reserved name is the cause. -/
def isReservedName : Error → Bool
  | reservedName _ => true
  | _ => false

/-- Whether a malformed fragment is the cause. -/
def isInvalidYaml : Error → Bool
  | invalidYaml .. => true
  | _ => false

/-- The error that caused this one. -/
def source? : Error → Option SyntaxError
  | invalidYaml _ cause => some cause
  | _ => none

end Error

namespace ReservedNames

/-- Refuses a reserved name. -/
def check (reserved : ReservedNames) (name : String) : Except Error Unit :=
  if reserved.contains name then .error (.reservedName name) else .ok ()

end ReservedNames

end CollectorTemplate
