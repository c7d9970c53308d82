/-
Manifests of the monitoring resource.

The outer fields of a manifest are read directly.  What stands in the specification is read as data
first and gets its types afterwards, and a complaint about a type names the specification as a
whole.

* `Monitoring.read` : the resource of a manifest;
* `ManifestError` : why a manifest has none.
-/
import CollectorTemplate.Monitoring.Resource
import CollectorTemplate.Yaml.Record

namespace CollectorTemplate

/-! ### The specification -/

/-- The backend that a name, or the number of one, stands for. -/
def TracesBackend.ofVariant (data : Untyped) : Except Complaint TracesBackend :=
  match data with
  | .string s =>
    match ofName? s with
    | some backend => .ok backend
    | none => .error (.unknownVariant s (all.map name))
  | .natural n =>
    match all[n]? with
    | some backend => .ok backend
    | none => .error (.wrongValue data.found s!"variant index 0 <= i < {all.length}")
  | _ => .error (data.unexpected "variant identifier")

/-- A backend: its name, or a mapping from its name to nothing. -/
def TracesBackend.ofUntyped (data : Untyped) : Except Complaint TracesBackend :=
  match data with
  | .string _ => ofVariant data
  | .mapping [(variant, content)] => do
    let backend ← ofVariant variant
    match content with
    | .null | .mapping [] => return backend
    | _ => throw (content.unexpected "unit")
  | .mapping _ => .error (.wrongValue .map "map with a single key")
  | _ => .error (data.unexpected "string or map")

/-- The storage of metrics in data. -/
def MetricsStorage.ofUntyped : Untyped → Except Complaint MetricsStorage :=
  Untyped.record "MetricsStorage" ["size", "retention"] {} fun storage field data => do
    match field with
    | "size" => return { storage with size := ← data.optional Untyped.text }
    | "retention" => return { storage with retention := ← data.optional Untyped.text }
    | _ => return storage

/-- The resources of the metrics backend in data. -/
def MetricsResources.ofUntyped : Untyped → Except Complaint MetricsResources :=
  Untyped.record "MetricsResources" ["cpuLimit", "memoryLimit", "cpuRequest", "memoryRequest"] {}
    fun resources field data => do
      match field with
      | "cpuLimit" => return { resources with cpuLimit := ← data.optional Untyped.text }
      | "memoryLimit" => return { resources with memoryLimit := ← data.optional Untyped.text }
      | "cpuRequest" => return { resources with cpuRequest := ← data.optional Untyped.text }
      | "memoryRequest" => return { resources with memoryRequest := ← data.optional Untyped.text }
      | _ => return resources

/-- The collection of metrics in data. -/
def Metrics.ofUntyped : Untyped → Except Complaint Metrics :=
  Untyped.record "Metrics" ["storage", "resources", "replicas", "exporters"] {}
    fun metrics field data => do
      match field with
      | "storage" => return { metrics with storage := ← data.optional MetricsStorage.ofUntyped }
      | "resources" =>
        return { metrics with resources := ← data.optional MetricsResources.ofUntyped }
      | "replicas" => return { metrics with replicas := ← data.optional Untyped.int32 }
      | "exporters" => return { metrics with exporters := ← data.table }
      | _ => return metrics

/-- The storage of traces in data. -/
def TracesStorage.ofUntyped : Untyped → Except Complaint TracesStorage :=
  Untyped.record "TracesStorage" ["backend", "size", "secret", "retention"] {}
    fun storage field data => do
      match field with
      | "backend" => return { storage with backend := ← data.optional TracesBackend.ofUntyped }
      | "size" => return { storage with size := ← data.optional Untyped.text }
      | "secret" => return { storage with secret := ← data.optional Untyped.text }
      | "retention" => return { storage with retention := ← data.optional Untyped.text }
      | _ => return storage

/-- The collection of traces in data. -/
def Traces.ofUntyped : Untyped → Except Complaint Traces :=
  Untyped.record "Traces" ["storage", "sampleRatio"] {} fun traces field data => do
    match field with
    | "storage" => return { traces with storage := ← TracesStorage.ofUntyped data }
    | "sampleRatio" => return { traces with sampleRatio := ← data.optional Untyped.text }
    | _ => return traces

/-- The specification in data. -/
def MonitoringSpec.ofUntyped : Untyped → Except Complaint MonitoringSpec :=
  Untyped.record "MonitoringSpec" ["namespace", "metrics", "traces"] {} fun spec field data => do
    match field with
    | "namespace" => return { spec with space := ← data.text }
    | "metrics" => return { spec with metrics := ← data.optional Metrics.ofUntyped }
    | "traces" => return { spec with traces := ← data.optional Traces.ofUntyped }
    | _ => return spec

/-! ### The manifest -/

open Yaml (Document Node Path Reads)

/-- The name and the namespace of a resource in a document. -/
def ObjectMeta.ofNode (d : Document) : (depth : Nat) → Path → Node → Reads ObjectMeta :=
  d.record "ObjectMeta" ["name", "namespace"] {} fun metadata field path node => do
    match field with
    | "name" =>
      let name ← (d.string path node : Reads _)
      return { metadata with name := name }
    | "namespace" => return { metadata with space := ← d.optionalText path node }
    | _ => return metadata

/-- The resource in a document. -/
def Monitoring.ofNode (d : Document) (depth : Nat) : Path → Node → Reads Monitoring :=
  d.record "Monitoring" ["apiVersion", "kind", "metadata", "spec"] {}
    (fun resource field path node => do
      match field with
      | "apiVersion" =>
        let version ← (d.string path node : Reads _)
        return { resource with apiVersion := version }
      | "kind" =>
        let kind ← (d.string path node : Reads _)
        return { resource with kind := kind }
      | "metadata" =>
        let metadata ← (ObjectMeta.ofNode d (depth - 1) path node : Reads _)
        return { resource with metadata := metadata }
      | "spec" =>
        let spec ←
          (d.loose "MonitoringSpec" MonitoringSpec.ofUntyped (depth - 1) path node : Reads _)
        return { resource with spec := spec }
      | _ => return resource)
    depth

/-- Why a manifest has no resource. -/
inductive ManifestError
  | unreadable (cause : Yaml.ReadError)
  | wrongKind (kind : String)
  deriving Inhabited

namespace ManifestError

def text : ManifestError → String
  | unreadable cause => "Failed to parse Monitoring manifest: " ++ cause.text
  | wrongKind kind => "Expected kind " ++ Monitoring.expectedKind ++ ", got " ++ kind

/-- The error of a manifest that has no resource. -/
def error (e : ManifestError) : Error := .invalidInput e.text

end ManifestError

namespace Monitoring

/-- The resource that a text writes, of whatever kind. -/
def readAny (manifest : String) : Except Yaml.ReadError Monitoring :=
  let d := Document.ofString manifest
  d.decode (.ok {}) (Monitoring.ofNode d Yaml.depthLimit .root)

/-- The resource of a manifest.  Its kind may be left out, but not be another. -/
def read (manifest : String) : Except ManifestError Monitoring :=
  match readAny manifest with
  | .error e => .error (.unreadable e)
  | .ok resource =>
    if resource.kind ≠ "" ∧ resource.kind ≠ expectedKind then .error (.wrongKind resource.kind)
    else .ok resource

end Monitoring

end CollectorTemplate
