/-
What template keys fall back to.

Ten keys of the template have a value whether or not the resource gives them one: what the resource
leaves open, or blank, the configuration may give, and what both leave open is built in.

* `Fallback` : the ten keys, with their places in the resource and in the configuration;
* `Settings.fallback_of_read` : the values to fall back to, as a text gives them;
* `templateData_entries` : the entries of template data;
* `BuiltFrom` : data come from a configuration and a resource;
* `build_fallback` : the keys of what is built for a resource, and what the ten of them have.
-/
import CollectorTemplate.Config.File
import CollectorTemplate.Proofs.Formats
import CollectorTemplate.Proofs.Toml

namespace CollectorTemplate

open Toml (Value)

/-! ### Records -/

namespace Toml

/-- What a value gives a field of a record: a table by name, and an array by the place of the field
among all of them. -/
def Value.field? (fields : List String) (field : String) : Value → Option Value
  | .table _ entries => Entries.find? field entries
  | .array items => Entries.find? field (fields.zip items)
  | _ => none

variable {α β : Type} {set? : α → String → Value → Option α} {get : α → β} {field : String}
  {typed : Value → Option β}

/-- Entries with distinct keys give a field what the entry of its name has, and leave it as it is if
there is none. -/
theorem foldlM_set?
    (hset : ∀ {record key value next}, set? record key value = some next →
      (if key = field then typed value else some (get record)) = some (get next))
    {entries : Table} (distinct : (Entries.keys entries).Nodup) {start record : α}
    (h : entries.foldlM (fun record entry => set? record entry.1 entry.2) start = some record) :
    (Entries.find? field entries).elim (some (get start)) typed = some (get record) := by
  induction entries generalizing start with
  | nil =>
    obtain rfl := Option.some.inj h
    rfl
  | cons entry entries ih =>
    obtain ⟨key, value⟩ := entry
    obtain ⟨hkey, hentries⟩ := List.nodup_cons.mp distinct
    rw [List.foldlM_cons] at h
    obtain ⟨next, hnext, h⟩ := Option.bind_eq_some_iff.mp h
    have hrest := ih hentries h
    have hvalue := hset hnext
    by_cases heq : key = field
    · subst heq
      -- No other entry sets the field.
      have hnone : Entries.find? key entries = none :=
        Entries.find?_eq_none fun entry hentry hname =>
          hkey (List.mem_map.mpr ⟨entry, hentry, hname⟩)
      rw [hnone, Option.elim_none] at hrest
      rw [if_pos rfl, hrest] at hvalue
      rw [Entries.find?, if_pos rfl]
      exact hvalue
    · rw [if_neg heq] at hvalue
      rw [Entries.find?, if_neg (Ne.symm heq), hvalue]
      exact hrest

/-- A record has in a field what its value gives it, or what it starts with. -/
theorem record?_field
    (hset : ∀ {record key value next}, set? record key value = some next →
      (if key = field then typed value else some (get record)) = some (get next))
    {fields : List String} (hfields : fields.Nodup) {value : Value} (distinct : value.Distinct)
    {start record : α} (h : value.record? fields start set? = some record) :
    (value.field? fields field).elim (some (get start)) typed = some (get record) := by
  cases value with
  | table origin entries => exact foldlM_set? hset distinct.asTable.keys h
  | array items =>
    rw [Value.record?] at h
    split at h
    · nomatch h
    · rename_i hlength
      have hkeys : Entries.keys (fields.zip items) = fields :=
        List.map_fst_zip (Nat.le_of_not_lt hlength)
      exact foldlM_set? hset (hkeys.symm ▸ hfields) h
  | moment moment =>
    obtain rfl := Option.some.inj h
    rfl
  | string | boolean | integer | float | tables => nomatch h

end Toml

/-! ### Keys -/

/-- The keys that fall back to other values. -/
inductive Fallback
  | replicas
  | storageSize
  | storageRetention
  | cpuLimit
  | memoryLimit
  | cpuRequest
  | memoryRequest
  | tracesBackend
  | tracesRetention
  | sampleRatio
  deriving Repr, DecidableEq, Inhabited

namespace Fallback

/-- The key of the template. -/
def key : Fallback → String
  | replicas => "Replicas"
  | storageSize => "StorageSize"
  | storageRetention => "StorageRetention"
  | cpuLimit => "CPULimit"
  | memoryLimit => "MemoryLimit"
  | cpuRequest => "CPURequest"
  | memoryRequest => "MemoryRequest"
  | tracesBackend => "TracesBackend"
  | tracesRetention => "TracesRetention"
  | sampleRatio => "SampleRatio"

/-- The key of the configuration. -/
def setting : Fallback → String
  | replicas => "replicas"
  | storageSize => "storage_size"
  | storageRetention => "storage_retention"
  | cpuLimit => "cpu_limit"
  | memoryLimit => "memory_limit"
  | cpuRequest => "cpu_request"
  | memoryRequest => "memory_request"
  | tracesBackend => "traces_backend"
  | tracesRetention => "traces_retention"
  | sampleRatio => "sample_ratio"

/-- The value that is built in. -/
def builtIn : Fallback → TemplateValue
  | replicas => .integer 2
  | storageSize => .string "5Gi"
  | storageRetention => .string "90d"
  | cpuLimit => .string "500m"
  | memoryLimit => .string "512Mi"
  | cpuRequest => .string "100m"
  | memoryRequest => .string "256Mi"
  | tracesBackend => .string "pv"
  | tracesRetention => .string "2160h"
  | sampleRatio => .string "0.1"

/-- The field of a specification that belongs to the key, if it is set. -/
def field? (spec : MonitoringSpec) : Fallback → Option TemplateValue
  | replicas => (spec.metrics.bind (·.replicas)).map .integer
  | storageSize => ((spec.metrics.bind (·.storage)).bind (·.size)).map .string
  | storageRetention => ((spec.metrics.bind (·.storage)).bind (·.retention)).map .string
  | cpuLimit => ((spec.metrics.bind (·.resources)).bind (·.cpuLimit)).map .string
  | memoryLimit => ((spec.metrics.bind (·.resources)).bind (·.memoryLimit)).map .string
  | cpuRequest => ((spec.metrics.bind (·.resources)).bind (·.cpuRequest)).map .string
  | memoryRequest => ((spec.metrics.bind (·.resources)).bind (·.memoryRequest)).map .string
  | tracesBackend => (spec.traces.bind (·.storage.backend)).map fun backend => .string backend.name
  | tracesRetention => (spec.traces.bind (·.storage.retention)).map .string
  | sampleRatio => (spec.traces.bind (·.sampleRatio)).map .string

/-- Whether a field is blank. -/
def isBlank : TemplateValue → Bool
  | .string text => Text.isBlank text
  | _ => false

/-- What a specification itself gives the key: the field that belongs to it, unless it is not set or
blank. -/
def own? (spec : MonitoringSpec) (f : Fallback) : Option TemplateValue :=
  (f.field? spec).filter fun value => !isBlank value

def ofMetrics : List Fallback :=
  [replicas, storageSize, storageRetention, cpuLimit, memoryLimit, cpuRequest, memoryRequest]

def ofTraces : List Fallback := [tracesBackend, tracesRetention, sampleRatio]

/-- The keys that a specification needs: those of the parts that are switched on. -/
def needed (spec : MonitoringSpec) : List Fallback :=
  (if spec.metrics.isSome then ofMetrics else []) ++ if spec.traces.isSome then ofTraces else []

/-- The value of a setting, if it has the type that it must have. -/
def typed? (value : Value) : Fallback → Option TemplateValue
  | replicas => value.int64?.map .integer
  | _ => value.text?.map .string

/-- The value that the configuration falls back to. -/
def fallback (d : Defaults) : Fallback → TemplateValue
  | replicas => .integer d.replicas
  | storageSize => .string d.storageSize
  | storageRetention => .string d.storageRetention
  | cpuLimit => .string d.cpuLimit
  | memoryLimit => .string d.memoryLimit
  | cpuRequest => .string d.cpuRequest
  | memoryRequest => .string d.memoryRequest
  | tracesBackend => .string d.tracesBackend
  | tracesRetention => .string d.tracesRetention
  | sampleRatio => .string d.sampleRatio

/-- All settings, in the order in which an array gives them. -/
def settings : List String :=
  ["replicas", "storage_size", "storage_retention", "cpu_limit", "memory_limit", "cpu_request",
    "memory_request", "traces_backend", "traces_retention", "sample_ratio"]

/-- What a text writes for the setting that belongs to the key. -/
def written? (text : String) (f : Fallback) : Option Value := do
  let entries ← Toml.read? text
  let defaults ← Entries.find? "defaults" entries
  defaults.field? settings f.setting

end Fallback

/-! ### Settings -/

/-- An entry sets the value to which the key of its name falls back, and no other. -/
theorem Defaults.set?_fallback (f : Fallback) {d next : Defaults} {key : String} {value : Value}
    (h : d.set? key value = some next) :
    (if key = f.setting then f.typed? value else some (f.fallback d)) = some (f.fallback next) := by
  unfold Defaults.set? at h
  split at h
  case h_11 =>
    -- What is no setting changes nothing.
    split at h
    · obtain rfl := Option.some.inj h
      have hne : key ≠ f.setting := by
        cases f <;> assumption
      rw [if_neg hne]
    · nomatch h
  all_goals
    -- A setting changes the value of its own key and leaves the nine others.
    obtain ⟨x, hx, rfl⟩ := Option.map_eq_some_iff.mp h
    cases f <;> simp [Fallback.setting, Fallback.typed?, Fallback.fallback, hx]

theorem Settings.set?_defaults {s next : Settings} {key : String} {value : Value}
    (h : s.set? key value = some next) :
    (if key = "defaults" then Defaults.ofValue? value else some s.defaults) =
      some next.defaults := by
  unfold Settings.set? at h
  split at h
  · obtain ⟨d, hd, rfl⟩ := Option.map_eq_some_iff.mp h
    exact hd
  · obtain ⟨l, -, rfl⟩ := Option.map_eq_some_iff.mp h
    rfl
  · rename_i hdefaults _
    split at h
    · obtain rfl := Option.some.inj h
      exact if_neg hdefaults
    · nomatch h

/-- The values to fall back to are those that a text writes, and otherwise those built in. -/
theorem Settings.fallback_of_read {text : String} {settings : Settings}
    (h : Settings.read text = .ok settings) (f : Fallback) :
    (f.written? text).elim (some f.builtIn) f.typed? = some (f.fallback settings.defaults) := by
  have hbuiltIn : f.builtIn = f.fallback {} := by
    cases f <;> rfl
  obtain ⟨entries, hentries, hfound⟩ := Option.bind_eq_some_iff.mp (Settings.read_eq_ok_iff.mp h)
  have hdistinct := Toml.distinct_read? hentries
  rw [Settings.ofTable?] at hfound
  have hdefaults : (Entries.find? "defaults" entries).elim (some {}) Defaults.ofValue? =
      some settings.defaults :=
    Toml.foldlM_set? Settings.set?_defaults hdistinct.keys hfound
  rw [Fallback.written?, hentries, Option.bind_eq_bind, Option.bind_some]
  cases hfind : Entries.find? "defaults" entries with
  | none =>
    -- Without a table of defaults none of them is set.
    rw [hfind] at hdefaults
    rw [hbuiltIn, ← Option.some.inj hdefaults]
    rfl
  | some value =>
    rw [hfind] at hdefaults
    rw [Option.bind_eq_bind, Option.bind_some, hbuiltIn]
    exact Toml.record?_field (Defaults.set?_fallback f) (by decide) (hdistinct.find? hfind)
      hdefaults

/-! ### Data -/

section

variable {d : Defaults} {spec : MonitoringSpec}

theorem orDefault_eq (field : Option String) (text : String) :
    orDefault field text =
      ((field.map TemplateValue.string).filter fun value => !Fallback.isBlank value).getD
        (.string text) := by
  cases field with
  | none => rfl
  | some s =>
    rw [orDefault, Option.map_some, Option.filter_some, Option.filter_some, Fallback.isBlank]
    split <;> rfl

/-- The entry of a key that falls back. -/
def Fallback.entry (d : Defaults) (spec : MonitoringSpec) (f : Fallback) : String × TemplateValue :=
  (f.key, (f.own? spec).getD (f.fallback d))

theorem metricsKeys_eq {m : Metrics} (h : spec.metrics = some m) :
    metricsKeys d m = Fallback.ofMetrics.map (Fallback.entry d spec) := by
  simp only [metricsKeys, Fallback.ofMetrics, List.map_cons, List.map_nil, Fallback.entry,
    Fallback.key, Fallback.own?, Fallback.field?, Fallback.fallback, h, Option.bind_some,
    orDefault_eq]
  obtain ⟨storage, resources, replicas, exporters⟩ := m
  cases storage <;> cases resources <;> cases replicas <;> rfl

theorem tracesKeys_eq {t : Traces} (h : spec.traces = some t) :
    tracesKeys d t = Fallback.ofTraces.map (Fallback.entry d spec) := by
  simp only [tracesKeys, Fallback.ofTraces, List.map_cons, List.map_nil, Fallback.entry,
    Fallback.key, Fallback.own?, Fallback.field?, Fallback.fallback, h, Option.bind_some,
    orDefault_eq]
  obtain ⟨⟨backend, size, secret, retention⟩, sampleRatio⟩ := t
  cases backend with
  | none => rfl
  | some backend => cases backend <;> rfl

/-- The entries of every specification. -/
def commonEntries (spec : MonitoringSpec) : List (String × TemplateValue) :=
  [("Namespace", .string spec.space), ("Metrics", .bool spec.metrics.isSome),
    ("Traces", .bool spec.traces.isSome)]

theorem specKeys_eq : specKeys d spec =
    commonEntries spec ++ (Fallback.needed spec).map (Fallback.entry d spec) := by
  rw [specKeys, Fallback.needed, List.map_append, ← List.append_assoc]
  congr 1
  · congr 1
    cases hmetrics : spec.metrics with
    | none => rfl
    | some m => exact metricsKeys_eq hmetrics
  · cases htraces : spec.traces with
    | none => rfl
    | some t => exact tracesKeys_eq htraces

theorem TemplateData.entries_setAll (data : TemplateData) (keys : List (String × TemplateValue)) :
    (keys.foldl (fun data entry => data.set entry.1 entry.2) data).entries =
      keys.foldl (fun table entry => Entries.put entry.1 entry.2 table) data.entries := by
  induction keys generalizing data with
  | nil => rfl
  | cons entry keys ih => exact ih (data.set entry.1 entry.2)

/-- The names of the entries of template data are distinct. -/
theorem Fallback.nodup_keys (spec : MonitoringSpec) :
    (["Namespace", "Metrics", "Traces"] ++ (needed spec).map key ++
      ["CustomMetricsExporters", "CustomMetricsExporterNames"]).Nodup := by
  unfold needed
  cases spec.metrics.isSome <;> cases spec.traces.isSome <;> decide

/-- The entries of template data: those of every specification, those that fall back, and the
exporters. -/
theorem templateData_entries (d : Defaults) (spec : MonitoringSpec) (assembly : Assembly) :
    (templateData d spec assembly).entries =
      commonEntries spec ++ (Fallback.needed spec).map (Fallback.entry d spec) ++
        [("CustomMetricsExporters", .exporters assembly.exporters),
          ("CustomMetricsExporterNames", .list assembly.names)] := by
  have hset : (templateData d spec assembly).entries =
      List.foldl (fun table entry => Entries.put entry.1 entry.2 table) []
        (specKeys d spec ++ [(TemplateData.exportersKey, .exporters assembly.exporters),
          (TemplateData.exporterNamesKey, .list assembly.names)]) := by
    -- The keys of the exporters are only two more to set, after all others.
    rw [List.foldl_append, templateData, TemplateData.merge, TemplateData.set, TemplateData.set,
      TemplateData.entries_setAll]
    rfl
  rw [hset, Entries.foldl_put, List.nil_append, specKeys_eq]
  · rfl
  · rw [List.nil_append, specKeys_eq, Entries.keys, List.map_append, List.map_append, List.map_map]
    exact Fallback.nodup_keys spec

theorem keys_templateData (d : Defaults) (spec : MonitoringSpec) (assembly : Assembly) :
    Entries.keys (templateData d spec assembly).entries =
      ["Namespace", "Metrics", "Traces"] ++ (Fallback.needed spec).map Fallback.key ++
        ["CustomMetricsExporters", "CustomMetricsExporterNames"] := by
  rw [templateData_entries, Entries.keys, List.map_append, List.map_append, List.map_map]
  rfl

end

/-! ### Builds -/

/-- Data come from a configuration and a resource: they are what a build with the values to fall
back to gives for the resource, in whatever context. -/
def BuiltFrom (text : String) (resource : Monitoring) (data : TemplateData) : Prop :=
  ∃ settings reserved context cancelled ambient, Settings.read text = .ok settings ∧
    ((build ⟨reserved, settings.defaults⟩ context cancelled resource).run ambient).value.1 =
      .ok data

variable {text : String} {resource : Monitoring} {data : TemplateData}

theorem BuiltFrom.keys_perm (h : BuiltFrom text resource data) :
    data.keys.Perm
      (["Namespace", "Metrics", "Traces", "CustomMetricsExporters", "CustomMetricsExporterNames"] ++
        (Fallback.needed resource.spec).map Fallback.key) := by
  obtain ⟨settings, reserved, context, cancelled, ambient, -, hbuild⟩ := h
  obtain ⟨assembly, -, rfl⟩ := build_eq_ok hbuild
  refine (List.mergeSort_perm _ _).trans ?_
  rw [keys_templateData, List.append_assoc]
  exact List.perm_append_comm.append_left ["Namespace", "Metrics", "Traces"]

/-- What a key that falls back has: the value of the resource itself, or else what the text writes
for it, or else what is built in. -/
theorem BuiltFrom.get? (h : BuiltFrom text resource data) {f : Fallback}
    (hf : f ∈ Fallback.needed resource.spec) :
    ∃ value, (f.written? text).elim (some f.builtIn) f.typed? = some value ∧
      data.get? f.key = some ((f.own? resource.spec).getD value) := by
  obtain ⟨settings, reserved, context, cancelled, ambient, hread, hbuild⟩ := h
  obtain ⟨assembly, -, rfl⟩ := build_eq_ok hbuild
  refine ⟨_, Settings.fallback_of_read hread f, ?_⟩
  refine Entries.find?_of_mem ?_ ?_
  · rw [keys_templateData]
    exact Fallback.nodup_keys resource.spec
  · rw [templateData_entries]
    exact List.mem_append_left _ (List.mem_append_right _ (List.mem_map_of_mem hf))

/-- What is built from a configuration and a resource has the keys of every resource, those of the
exporters, and those that fall back in the parts that are switched on.  A key that falls back has
the value of the resource itself, or else what the configuration writes for it, or else what is
built in; so it has the same value in whatever else is built with the same value of its own, or with
none and the same setting. -/
theorem build_fallback (h : BuiltFrom text resource data) :
    data.keys.Perm
      (["Namespace", "Metrics", "Traces", "CustomMetricsExporters", "CustomMetricsExporterNames"] ++
        (Fallback.needed resource.spec).map Fallback.key) ∧
    (∀ f ∈ Fallback.needed resource.spec,
      ∃ value, (f.written? text).elim (some f.builtIn) f.typed? = some value ∧
        data.get? f.key = some ((f.own? resource.spec).getD value)) ∧
    ∀ text' resource' data', BuiltFrom text' resource' data' →
      ∀ f ∈ Fallback.needed resource.spec, f ∈ Fallback.needed resource'.spec →
        f.own? resource'.spec = f.own? resource.spec →
        (f.own? resource.spec = none → f.written? text' = f.written? text) →
        data'.get? f.key = data.get? f.key := by
  refine ⟨h.keys_perm, fun f hf => h.get? hf, ?_⟩
  intro text' resource' data' h' f hf hf' hown hwritten
  obtain ⟨value, hvalue, hget⟩ := h.get? hf
  obtain ⟨value', hvalue', hget'⟩ := h'.get? hf'
  rw [hget, hget', hown]
  cases hfield : f.own? resource.spec with
  | some own => rfl
  | none =>
    -- Neither has a value of its own, so the settings decide.
    rw [hwritten hfield, hvalue] at hvalue'
    rw [Option.some.inj hvalue']

/-- A resource with a blank field, one with blanks around it, and others that are not set. -/
def Monitoring.sparse : Monitoring :=
  { spec :=
      { space := "ns"
        metrics := some { storage := some { size := some " ", retention := some " 7d " } }
        traces := some { storage := { backend := some .gcs } } } }

/-- A configuration of three values. -/
def sparseDefaults : String :=
  "[defaults]\nreplicas = 3\nstorage_size = \"9Gi\"\nsample_ratio = \"1\"\n"

/-- Each of the three layers gives some of the values. -/
theorem build_fallback_of_sparse :
    ∃ data, BuiltFrom sparseDefaults .sparse data ∧
      (data.get? "Replicas").bind (·.integer?) = some 3 ∧
      (data.get? "StorageSize").bind (·.string?) = some "9Gi" ∧
      (data.get? "StorageRetention").bind (·.string?) = some " 7d " ∧
      (data.get? "CPULimit").bind (·.string?) = some "500m" ∧
      (data.get? "TracesBackend").bind (·.string?) = some "gcs" ∧
      (data.get? "SampleRatio").bind (·.string?) = some "1" := by
  have hread : (Settings.read sparseDefaults).toOption.any (fun settings =>
      ((build ⟨.system, settings.defaults⟩ ⟨"ctx", 0⟩ false .sparse).run {}).value.1.toOption.any
        fun _ => true) = true := by
    decide +kernel
  obtain ⟨settings, hsettings, hbuilt⟩ := exists_of_any hread
  obtain ⟨data, hdata, -⟩ := exists_of_any hbuilt
  have hfrom : BuiltFrom sparseDefaults .sparse data := ⟨_, _, _, _, _, hsettings, hdata⟩
  -- What the three layers have for a key is a matter of evaluation.
  have hget {α : Type} (kind? : TemplateValue → Option α) (f : Fallback) (x : α)
      (hf : f ∈ Fallback.needed Monitoring.sparse.spec)
      (hx : (((f.written? sparseDefaults).elim (some f.builtIn) f.typed?).map
        ((f.own? Monitoring.sparse.spec).getD ·)).bind kind? = some x) :
      (data.get? f.key).bind kind? = some x := by
    obtain ⟨value, hvalue, hget⟩ := (build_fallback hfrom).2.1 f hf
    rw [hvalue] at hx
    rw [hget]
    exact hx
  exact ⟨data, hfrom,
    hget _ .replicas 3 (by decide) (by decide +kernel),
    hget _ .storageSize "9Gi" (by decide) (by decide +kernel),
    hget _ .storageRetention " 7d " (by decide) (by decide +kernel),
    hget _ .cpuLimit "500m" (by decide) (by decide +kernel),
    hget _ .tracesBackend "gcs" (by decide) (by decide +kernel),
    hget _ .sampleRatio "1" (by decide) (by decide +kernel)⟩

end CollectorTemplate
