/-
Data for the collector template.

The data of the template is a table from keys to values.  Exporters stand in it under two keys, the
trees by name and the names alone.

* `TemplateData.set`, `TemplateData.get?`, `TemplateData.keys` : the table;
* `TemplateData.merge` : puts assembled exporters under their two keys;
* `TemplateData.toJson`, `TemplateData.toYaml` : the rendered data, in the order of keys.
-/
import CollectorTemplate.Assembly
import CollectorTemplate.Json.Writer
import CollectorTemplate.Template.Value
import CollectorTemplate.Yaml.Writer

namespace CollectorTemplate

/-- Data for the collector template. -/
structure TemplateData where
  /-- The values by key, in no particular order. -/
  entries : List (String × TemplateValue) := []
  deriving Inhabited

namespace TemplateData

/-- The key of the exporters' trees. -/
def exportersKey : String := "CustomMetricsExporters"

def exporterNamesKey : String := "CustomMetricsExporterNames"

/-- Sets the value of a key. -/
def set (data : TemplateData) (key : String) (value : TemplateValue) : TemplateData :=
  ⟨Entries.put key value data.entries⟩

def get? (data : TemplateData) (key : String) : Option TemplateValue :=
  Entries.find? key data.entries

/-- Whether a key has a value. -/
def contains (data : TemplateData) (key : String) : Bool := Entries.contains key data.entries

/-- The number of keys. -/
def size (data : TemplateData) : Nat := data.entries.length

/-- The keys in their order. -/
def keys (data : TemplateData) : List String :=
  (Entries.keys data.entries).mergeSort fun a b => a ≤ b

/-- Puts assembled exporters under their two keys. -/
def merge (data : TemplateData) (assembly : Assembly) : TemplateData :=
  (data.set exportersKey (.exporters assembly.exporters)).set exporterNamesKey
    (.list assembly.names)

/-- The trees of the exporters, if they are there. -/
def exporters? (data : TemplateData) : Option (List (String × Tree)) :=
  (data.get? exportersKey).bind (·.exporters?)

/-- The names of the exporters, if they are there. -/
def exporterNames? (data : TemplateData) : Option (List String) :=
  (data.get? exporterNamesKey).bind (·.list?)

def tree (data : TemplateData) : Tree :=
  .ofEntries (data.entries.map fun entry => (entry.1, entry.2.tree))

/-- The data rendered as JSON. -/
def toJson (data : TemplateData) : String := Json.pretty data.tree

/-- The data rendered as YAML. -/
def toYaml (data : TemplateData) : String := Yaml.write data.tree

end TemplateData

end CollectorTemplate
