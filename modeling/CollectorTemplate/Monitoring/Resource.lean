/-
The monitoring resource.

A resource says into which namespace the monitoring stack goes, and how metrics and traces are
collected.  Without its metrics, or its traces, that part is switched off.

* `Monitoring` : the resource;
* `Monitoring.tree` : the resource as data, without the options that are not set.
-/
import CollectorTemplate.Assembly
import CollectorTemplate.Monitoring.Backend

namespace CollectorTemplate

/-- The name and the namespace of a resource itself. -/
structure ObjectMeta where
  name : String := ""
  space : Option String := none
  deriving Repr, DecidableEq, Inhabited

structure MetricsStorage where
  size : Option String := none
  retention : Option String := none
  deriving Repr, DecidableEq, Inhabited

/-- The resources of the metrics backend. -/
structure MetricsResources where
  cpuLimit : Option String := none
  memoryLimit : Option String := none
  cpuRequest : Option String := none
  memoryRequest : Option String := none
  deriving Repr, DecidableEq, Inhabited

/-- How metrics are collected. -/
structure Metrics where
  storage : Option MetricsStorage := none
  resources : Option MetricsResources := none
  /-- An integer of 32 bits with sign. -/
  replicas : Option Int := none
  /-- The fragments of custom exporters by name. -/
  exporters : Sources := []
  deriving Repr, DecidableEq, Inhabited

structure TracesStorage where
  backend : Option TracesBackend := none
  size : Option String := none
  secret : Option String := none
  retention : Option String := none
  deriving Repr, DecidableEq, Inhabited

/-- How traces are collected. -/
structure Traces where
  storage : TracesStorage := {}
  sampleRatio : Option String := none
  deriving Repr, DecidableEq, Inhabited

/-- What is asked of the monitoring stack. -/
structure MonitoringSpec where
  /-- The namespace that the stack goes into. -/
  space : String := ""
  metrics : Option Metrics := none
  traces : Option Traces := none
  deriving Repr, DecidableEq, Inhabited

structure Monitoring where
  apiVersion : String := ""
  kind : String := ""
  metadata : ObjectMeta := {}
  spec : MonitoringSpec := {}
  deriving Repr, DecidableEq, Inhabited

/-! ### Resources as data -/

/-- The entry of an option, if it is set. -/
def optionEntry {α : Type} (key : String) (tree : α → Tree) : Option α → List (String × Tree)
  | none => []
  | some value => [(key, tree value)]

namespace ObjectMeta

def tree (m : ObjectMeta) : Tree :=
  .mapping (("name", .string m.name) :: optionEntry "namespace" .string m.space)

end ObjectMeta

namespace MetricsStorage

def tree (s : MetricsStorage) : Tree :=
  .mapping (optionEntry "size" .string s.size ++ optionEntry "retention" .string s.retention)

end MetricsStorage

namespace MetricsResources

def tree (r : MetricsResources) : Tree :=
  .mapping (optionEntry "cpuLimit" .string r.cpuLimit ++
    optionEntry "memoryLimit" .string r.memoryLimit ++
    optionEntry "cpuRequest" .string r.cpuRequest ++
    optionEntry "memoryRequest" .string r.memoryRequest)

end MetricsResources

namespace Metrics

/-- The data of exporters. -/
def exportersTree (exporters : Sources) : Tree :=
  .mapping (exporters.map fun exporter => (exporter.1, .string exporter.2))

/-- The data.  Exporters are left out if there are none. -/
def tree (m : Metrics) : Tree :=
  .mapping (optionEntry "storage" MetricsStorage.tree m.storage ++
    optionEntry "resources" MetricsResources.tree m.resources ++
    optionEntry "replicas" .integer m.replicas ++
    if m.exporters.isEmpty then [] else [("exporters", exportersTree m.exporters)])

end Metrics

namespace TracesStorage

def tree (s : TracesStorage) : Tree :=
  .mapping (optionEntry "backend" (fun backend => .string backend.name) s.backend ++
    optionEntry "size" .string s.size ++ optionEntry "secret" .string s.secret ++
    optionEntry "retention" .string s.retention)

end TracesStorage

namespace Traces

def tree (t : Traces) : Tree :=
  .mapping (("storage", t.storage.tree) :: optionEntry "sampleRatio" .string t.sampleRatio)

end Traces

namespace MonitoringSpec

def tree (s : MonitoringSpec) : Tree :=
  .mapping (("namespace", .string s.space) ::
    (optionEntry "metrics" Metrics.tree s.metrics ++ optionEntry "traces" Traces.tree s.traces))

end MonitoringSpec

namespace Monitoring

/-- The version of the resource's interface. -/
def currentVersion : String := "services.platform.opendatahub.io/v1alpha1"

def expectedKind : String := "Monitoring"

/-- The resource with a specification, under the name that it has by default. -/
def ofSpec (spec : MonitoringSpec) : Monitoring where
  apiVersion := currentVersion
  kind := expectedKind
  metadata := { name := "default-monitoring" }
  spec := spec

/-- The fragments of custom exporters, if metrics are switched on. -/
def exporters? (m : Monitoring) : Option Sources := m.spec.metrics.map (·.exporters)

/-- The resource as data. -/
def tree (m : Monitoring) : Tree :=
  .mapping [("apiVersion", .string m.apiVersion), ("kind", .string m.kind),
    ("metadata", m.metadata.tree), ("spec", m.spec.tree)]

end Monitoring

end CollectorTemplate
