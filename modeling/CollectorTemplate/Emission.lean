/-
What can be seen of the work.

Work opens spans, notes events and counts assemblies.  `Traced` is work that leaves such a trace.

* `Emission` : one thing that is seen;
* `Traced` : a value with the trace of the work that led to it;
* `Traced.emit` : work that is seen and does nothing else.
-/
import CollectorTemplate.Error

namespace CollectorTemplate

/-- A stretch of work, with what is known when it begins. -/
inductive Span
  | assemble (exporters : Nat)
  | diagnose (exporters : Nat)
  | build (reconcileId monitoring : String)
  deriving Repr, DecidableEq, Inhabited

namespace Span

/-- The name of the work. -/
def name : Span → String
  | assemble _ => "assemble"
  | diagnose _ => "diagnose"
  | build .. => "build"

/-- What is known, by name. -/
def fields : Span → List (String × String)
  | assemble n | diagnose n => [("exporters", toString n)]
  | build id monitoring => [("reconcile_id", id), ("monitoring", monitoring)]

end Span

/-- How grave an event is. -/
inductive Level
  | error
  | warn
  | info
  | debug
  | trace
  deriving Repr, DecidableEq, Inhabited

namespace Level

/-- The place of the level, the gravest first. -/
def rank : Level → Nat
  | error => 1
  | warn => 2
  | info => 3
  | debug => 4
  | trace => 5

/-- The level as it is written. -/
def label : Level → String
  | error => "ERROR"
  | warn => "WARN"
  | info => "INFO"
  | debug => "DEBUG"
  | trace => "TRACE"

end Level

/-- Something that happens. -/
inductive Event
  | rejectedReserved (exporter : String)
  | rejectedMalformed (exporter : String) (cause : SyntaxError)
  | assembled (count : Nat)
  | skippedCancelled
  | built (keys : Nat)
  /-- A configuration file that was found without being asked for, and is of no use. -/
  | ignoredSettings (path : String) (cause : Error)
  deriving Repr, DecidableEq, Inhabited

namespace Event

/-- How grave the event is. -/
def level : Event → Level
  | built _ => .info
  | ignoredSettings .. => .warn
  | _ => .debug

def message : Event → String
  | rejectedReserved _ => "Rejected reserved exporter name"
  | rejectedMalformed .. => "Rejected malformed exporter"
  | assembled _ => "Assembled custom metrics exporters"
  | skippedCancelled => "Reconciliation cancelled, skipping template data"
  | built _ => "Built collector template data"
  | ignoredSettings .. => "Ignoring unreadable config file"

/-- What is told besides the wording, by name. -/
def details : Event → List (String × String)
  | rejectedReserved exporter => [("exporter", exporter)]
  | rejectedMalformed exporter cause => [("exporter", exporter), ("error", cause.text)]
  | assembled count => [("count", toString count)]
  | skippedCancelled => []
  | built keys => [("keys", toString keys)]
  | ignoredSettings path cause => [("path", path), ("error", cause.text)]

end Event

/-- How an assembly ended. -/
inductive AssemblyStatus
  | success
  | reservedName
  | invalidYaml
  deriving Repr, DecidableEq, Inhabited

namespace AssemblyStatus

/-- The label under which assemblies are counted. -/
def label : AssemblyStatus → String
  | success => "success"
  | reservedName => "reserved_name"
  | invalidYaml => "invalid_yaml"

end AssemblyStatus

/-- One thing that is seen of the work. -/
inductive Emission
  | opened (span : Span)
  /-- Work is tagged with the reconciliation that it belongs to. -/
  | tagged (reconcileId : String)
  | event (event : Event)
  /-- One more assembly that ended this way. -/
  | counted (status : AssemblyStatus)
  /-- The log begins: what happened before is not in it. -/
  | logBegins
  deriving Repr, DecidableEq, Inhabited

/-- A value with the trace of the work that led to it. -/
structure Traced (α : Type) where
  value : α
  /-- What was seen, in order. -/
  trace : List Emission := []
  deriving Repr, Inhabited

namespace Traced

variable {α β : Type}

instance : Monad Traced where
  pure value := ⟨value, []⟩
  bind x f := ⟨(f x.value).value, x.trace ++ (f x.value).trace⟩

/-- Work that is seen and does nothing else. -/
def emit (emission : Emission) : Traced Unit := ⟨(), [emission]⟩

@[simp] theorem value_pure (value : α) : (pure value : Traced α).value = value := rfl

@[simp] theorem trace_pure (value : α) : (pure value : Traced α).trace = [] := rfl

@[simp] theorem value_bind (x : Traced α) (f : α → Traced β) :
    (x >>= f).value = (f x.value).value := rfl

@[simp] theorem trace_bind (x : Traced α) (f : α → Traced β) :
    (x >>= f).trace = x.trace ++ (f x.value).trace := rfl

@[simp] theorem trace_emit (emission : Emission) : (emit emission).trace = [emission] := rfl

/-- How often assemblies that ended in one of the ways were counted. -/
def counts (x : Traced α) : List AssemblyStatus :=
  x.trace.filterMap fun
    | .counted status => some status
    | _ => none

end Traced

end CollectorTemplate
