/-
Building template data.

The data of the collector template is built from a resource.  Exporters are assembled first, so that
nothing is built if they cannot be.

* `build` : the data for one reconciliation;
* `templateData` : the keys of a resource with its assembled exporters;
* `orDefault` : a field that counts unless it is blank.
-/
import CollectorTemplate.Config.Settings
import CollectorTemplate.Monitoring.Resource
import CollectorTemplate.Reconcile.Context
import CollectorTemplate.Template.Data
import CollectorTemplate.Text.Blank

namespace CollectorTemplate

/-- The text of a field, unless it is not set or blank. -/
def orDefault (field : Option String) (fallback : String) : TemplateValue :=
  .string ((field.filter fun text => !Text.isBlank text).getD fallback)

def metricsKeys (d : Defaults) (m : Metrics) : List (String × TemplateValue) :=
  let storage := m.storage.getD {}
  let resources := m.resources.getD {}
  [("Replicas", .integer (m.replicas.getD d.replicas)),
    ("StorageSize", orDefault storage.size d.storageSize),
    ("StorageRetention", orDefault storage.retention d.storageRetention),
    ("CPULimit", orDefault resources.cpuLimit d.cpuLimit),
    ("MemoryLimit", orDefault resources.memoryLimit d.memoryLimit),
    ("CPURequest", orDefault resources.cpuRequest d.cpuRequest),
    ("MemoryRequest", orDefault resources.memoryRequest d.memoryRequest)]

def tracesKeys (d : Defaults) (t : Traces) : List (String × TemplateValue) :=
  [("TracesBackend", .string ((t.storage.backend.map (·.name)).getD d.tracesBackend)),
    ("TracesRetention", orDefault t.storage.retention d.tracesRetention),
    ("SampleRatio", orDefault t.sampleRatio d.sampleRatio)]

/-- The keys of a specification without its exporters. -/
def specKeys (d : Defaults) (spec : MonitoringSpec) : List (String × TemplateValue) :=
  [("Namespace", .string spec.space), ("Metrics", .bool spec.metrics.isSome),
    ("Traces", .bool spec.traces.isSome)] ++
    (spec.metrics.map (metricsKeys d)).getD [] ++ (spec.traces.map (tracesKeys d)).getD []

/-- The data of a specification with its assembled exporters. -/
def templateData (d : Defaults) (spec : MonitoringSpec) (assembly : Assembly) : TemplateData :=
  let keys : TemplateData := (specKeys d spec).foldl (fun data entry => data.set entry.1 entry.2) {}
  keys.merge assembly

/-- How template data is built. -/
structure Builder where
  reserved : ReservedNames := .system
  defaults : Defaults := {}
  deriving Repr, Inhabited

/-- Builds the data of a resource for the reconciliation of a context, which is entered meanwhile.
For a cancelled context nothing is assembled. -/
def build (b : Builder) (context : ReconcileContext) (cancelled : Bool) (resource : Monitoring) :
    StateT Ambient Traced (Except Error TemplateData) := do
  Traced.emit (.opened (.build context.id resource.metadata.name))
  if cancelled then
    Traced.emit (.event .skippedCancelled)
    return .error (.cancelled context.id)
  let guard ← modifyGet (·.enter context)
  let assembled ← assemble b.reserved (← get).current? (resource.exporters?.getD [])
  let result ←
    match assembled with
    | .error e => pure (.error e)
    | .ok assembly => do
      let data := templateData b.defaults resource.spec assembly
      Traced.emit (.event (.built data.size))
      pure (.ok data)
  modify (·.leave guard)
  return result

end CollectorTemplate
