/-
Built data in both formats.

Whatever is built for a resource is valid: integers beyond 64 bits with sign do not come out of
fragments, and every key is set once.  So both texts of it denote the same data, except for numbers
that are not finite.  YAML has texts for these, and JSON has null.

* `Fragment.valid_parse` : the tree of a fragment is valid;
* `build_valid` : so is whatever is built for a resource;
* `build_formats` : what both texts of built data denote, and when that is the same;
* `build_nulls_infinity` : an infinity that is null in the one and not in the other.
-/
import CollectorTemplate.Proofs.Build
import CollectorTemplate.Proofs.Json.Denoted
import CollectorTemplate.Proofs.Manifest
import CollectorTemplate.Proofs.Rendering
import CollectorTemplate.Proofs.Yaml.Denoted

namespace CollectorTemplate

/-! ### Trees of fragments -/

theorem Tree.valid_empty : Tree.empty.Valid := .mapping .nil fun _ h => absurd h List.not_mem_nil

/-- One more valid tree, in its place in the order of keys, leaves a mapping valid. -/
theorem Tree.Valid.insert {entries : List (String × Tree)} (h : (Tree.mapping entries).Valid)
    (key : String) {tree : Tree} (htree : tree.Valid) :
    (Tree.mapping (Entries.insert key tree entries)).Valid := by
  cases h with
  | mapping hsorted hentries =>
    refine .mapping (Entries.sorted_insert hsorted) fun entry hentry => ?_
    rcases Entries.mem_of_mem_insert hentry with rfl | hentry
    · exact htree
    · exact hentries entry hentry

namespace Fragment

theorem valid_integerTree (n : Int) : (integerTree n).Valid := by
  unfold integerTree
  split
  · rename_i hwidth
    exact .integer hwidth
  · exact .float _

theorem valid_convertItems {items : List Untyped}
    (hvalid : ∀ item ∈ items, ∀ tree, convert item = .ok tree → tree.Valid) {trees : List Tree}
    (h : convertItems items = .ok trees) : ∀ tree ∈ trees, tree.Valid := by
  induction items generalizing trees with
  | nil =>
    obtain rfl := Except.ok.inj h
    exact fun _ htree => absurd htree List.not_mem_nil
  | cons item items ih =>
    obtain ⟨hitem, hitems⟩ := List.forall_mem_cons.mp hvalid
    obtain ⟨tree, htree, h⟩ := bind_eq_ok.mp h
    obtain ⟨rest, hrest, h⟩ := bind_eq_ok.mp h
    obtain rfl := Except.ok.inj h
    exact List.forall_mem_cons.mpr ⟨hitem tree htree, ih hitems hrest⟩

/-- The entries found so far are those of a valid mapping, and remain so. -/
theorem valid_convertEntries {entries : List (Untyped × Untyped)}
    (hvalid : ∀ entry ∈ entries, ∀ tree, convert entry.2 = .ok tree → tree.Valid)
    {found trees : List (String × Tree)} (hfound : (Tree.mapping found).Valid)
    (h : convertEntries found entries = .ok trees) : (Tree.mapping trees).Valid := by
  -- The induction goes over what is left to convert, and what was found grows.
  induction entries generalizing found with
  | nil =>
    obtain rfl := Except.ok.inj h
    exact hfound
  | cons entry entries ih =>
    obtain ⟨key, value⟩ := entry
    obtain ⟨hvalue, hentries⟩ := List.forall_mem_cons.mp hvalid
    rw [convertEntries] at h
    cases hkey : keyText key with
    | none =>
      rw [hkey] at h
      cases h
    | some k =>
      rw [hkey] at h
      dsimp only at h
      split at h
      · cases h
      · obtain ⟨tree, htree, h⟩ := bind_eq_ok.mp h
        exact ih hentries (hfound.insert k (hvalue tree htree)) h

theorem valid_convert {data : Untyped} {tree : Tree} (h : convert data = .ok tree) :
    tree.Valid := by
  induction data using Untyped.induction generalizing tree with
  | null =>
    obtain rfl := Except.ok.inj h
    exact .null
  | bool b =>
    obtain rfl := Except.ok.inj h
    exact .bool b
  | natural n | negative n =>
    obtain rfl := Except.ok.inj h
    exact valid_integerTree _
  | float x =>
    obtain rfl := Except.ok.inj h
    exact .float x
  | string s =>
    obtain rfl := Except.ok.inj h
    exact .string s
  | sequence items ih =>
    obtain ⟨trees, htrees, h⟩ := bind_eq_ok.mp h
    obtain rfl := Except.ok.inj h
    exact .sequence (valid_convertItems (fun item hitem _ => ih item hitem) htrees)
  | mapping entries ih =>
    obtain ⟨trees, htrees, h⟩ := bind_eq_ok.mp h
    obtain rfl := Except.ok.inj h
    exact valid_convertEntries (fun entry hentry _ => ih entry hentry) Tree.valid_empty htrees
  | tagged tag value ih => exact ih h

/-- The tree of a fragment is valid. -/
theorem valid_parse {raw : String} {tree : Tree} (h : parse raw = .ok tree) : tree.Valid := by
  unfold parse at h
  split at h
  · -- What the line test takes for blank is the empty mapping.
    obtain rfl := Except.ok.inj h
    exact Tree.valid_empty
  split at h
  · nomatch h
  split at h
  · nomatch h
  · rename_i hconvert
    obtain rfl := Except.ok.inj h
    exact valid_convert hconvert

end Fragment

/-! ### Assembled exporters -/

/-- Exporters with distinct names are a valid value. -/
theorem Assembly.Views.valid {sources : Sources} {assembly : Assembly}
    (v : assembly.Views sources) (distinct : (Entries.keys sources).Nodup) :
    (TemplateValue.exporters assembly.exporters).Valid := by
  refine ⟨?_, fun exporter hexporter => ?_⟩
  · rw [keys_exporters v.exporters]
    exact distinct
  · obtain ⟨source, -, -, hparse⟩ := related_of_mem v.exporters.flip hexporter
    exact Fragment.valid_parse hparse

/-- What holds of the tree of every exporter holds of what every fragment is parsed as. -/
theorem Assembly.Views.forall_tree_iff {sources : Sources} {assembly : Assembly}
    (v : assembly.Views sources) (p : Tree → Prop) :
    (∀ exporter ∈ assembly.exporters, p exporter.2) ↔
      ∀ source ∈ sources, ∀ tree, Fragment.parse source.2 = .ok tree → p tree := by
  constructor
  · intro h source hsource tree hparse
    obtain ⟨other, hother, hmem⟩ := exporter_of_mem v.exporters hsource
    obtain rfl := Except.ok.inj (hparse.symm.trans hother)
    exact h _ hmem
  · intro h exporter hexporter
    obtain ⟨source, hsource, -, hparse⟩ := related_of_mem v.exporters.flip hexporter
    exact h source hsource _ hparse

/-- The exporters of a resource have distinct names. -/
theorem Monitoring.Valid.distinct {m : Monitoring} (h : m.Valid) :
    (Entries.keys (m.exporters?.getD [])).Nodup := by
  rw [Monitoring.exporters?]
  cases hmetrics : m.spec.metrics with
  | none => exact .nil
  | some metrics => exact (h metrics hmetrics).exporters

/-! ### Keys -/

namespace TemplateData

variable {d : TemplateData}

theorem Valid.empty : Valid {} := ⟨.nil, fun _ h => absurd h List.not_mem_nil⟩

theorem Valid.set (h : d.Valid) (key : String) {value : TemplateValue} (hvalue : value.Valid) :
    (d.set key value).Valid := by
  refine ⟨Entries.nodup_keys_put h.distinct, fun entry hentry => ?_⟩
  rcases Entries.mem_of_mem_put hentry with rfl | hentry
  · exact hvalue
  · exact h.values entry hentry

/-- The keys of a list, set one after another. -/
theorem Valid.setAll (h : d.Valid) {keys : List (String × TemplateValue)}
    (hkeys : ∀ entry ∈ keys, entry.2.Valid) :
    (keys.foldl (fun data entry => data.set entry.1 entry.2) d).Valid := by
  induction keys generalizing d with
  | nil => exact h
  | cons entry keys ih =>
    obtain ⟨hentry, hrest⟩ := List.forall_mem_cons.mp hkeys
    exact ih (h.set entry.1 hentry) hrest

theorem Valid.merge (h : d.Valid) {assembly : Assembly}
    (hassembly : (TemplateValue.exporters assembly.exporters).Valid) :
    (d.merge assembly).Valid :=
  (h.set exportersKey hassembly).set exporterNamesKey trivial

theorem mem_of_mem_setAll {entry : String × TemplateValue} {keys : List (String × TemplateValue)}
    (h : entry ∈ (keys.foldl (fun data entry => data.set entry.1 entry.2) d).entries) :
    entry ∈ keys ∨ entry ∈ d.entries := by
  induction keys generalizing d with
  | nil => exact .inr h
  | cons first keys ih =>
    rcases ih h with h | h
    · exact .inl (List.mem_cons_of_mem _ h)
    · rcases Entries.mem_of_mem_put h with rfl | h
      · exact .inl List.mem_cons_self
      · exact .inr h

/-- The exporters stand under their key: their names go under another. -/
theorem exporters_mem_merge (d : TemplateData) (assembly : Assembly) :
    (exportersKey, .exporters assembly.exporters) ∈ (d.merge assembly).entries := by
  have hne : exporterNamesKey ≠ exportersKey := by decide
  exact Entries.mem_put_of_ne hne Entries.mem_put

end TemplateData

/-! ### Finite numbers -/

namespace Tree

theorem entriesAllFinite_eq (entries : List (String × Tree)) :
    entriesAllFinite entries = entries.all (·.2.allFinite) := by
  induction entries with
  | nil => rfl
  | cons entry entries ih => rw [entriesAllFinite, ih, List.all_cons]

/-- The order of entries with distinct keys does not matter to what they hold. -/
theorem allFinite_ofEntries {entries : List (String × Tree)}
    (distinct : (Entries.keys entries).Nodup) :
    (ofEntries entries).allFinite = true ↔ ∀ entry ∈ entries, entry.2.allFinite = true := by
  rw [ofEntries, allFinite, entriesAllFinite_eq, List.all_eq_true]
  exact forall_congr' fun entry => imp_congr_left (Entries.perm_ofList distinct).mem_iff

end Tree

/-- Only exporters hold numbers of any kind but integers. -/
theorem TemplateValue.allFinite_tree {value : TemplateValue} (h : value.exporters? = none) :
    value.tree.allFinite = true := by
  cases value with
  | bool | integer | string => rfl
  | list names =>
    show Tree.itemsAllFinite (names.map .string) = true
    induction names with
    | nil => rfl
    | cons name names ih => exact ih rfl
  | exporters trees => nomatch h

theorem TemplateData.allFinite_tree {d : TemplateData} (h : d.Valid) :
    d.tree.allFinite = true ↔ ∀ entry ∈ d.entries, entry.2.tree.allFinite = true := by
  rw [tree, Tree.allFinite_ofEntries (d.keys_trees ▸ h.distinct), List.forall_mem_map]

/-! ### The data of a resource -/

/-- What holds of all defaults: the number of replicas has 64 bits with sign. -/
def Defaults.Valid (d : Defaults) : Prop := Width.signed 64 d.replicas = true

section

variable {defaults : Defaults} {spec : MonitoringSpec}

theorem metricsKeys_spec (hdefaults : defaults.Valid) {metrics : Metrics}
    (hmetrics : metrics.Valid) :
    ∀ entry ∈ metricsKeys defaults metrics, entry.2.Valid ∧ entry.2.exporters? = none := by
  -- Only the number of replicas has a bound to keep.
  have hreplicas : Width.signed 64 (metrics.replicas.getD defaults.replicas) = true := by
    cases hn : metrics.replicas with
    | none => exact hdefaults
    | some n => exact Width.signed_of_le (by decide) (hmetrics.replicas n hn)
  intro entry hentry
  rcases List.mem_cons.mp hentry with rfl | htext
  · exact ⟨hreplicas, rfl⟩
  · simp only [List.mem_cons, List.not_mem_nil, or_false] at htext
    rcases htext with rfl | rfl | rfl | rfl | rfl | rfl <;> exact ⟨trivial, rfl⟩

theorem tracesKeys_spec (traces : Traces) :
    ∀ entry ∈ tracesKeys defaults traces, entry.2.Valid ∧ entry.2.exporters? = none := by
  intro entry hentry
  simp only [tracesKeys, List.mem_cons, List.not_mem_nil, or_false] at hentry
  rcases hentry with rfl | rfl | rfl <;> exact ⟨trivial, rfl⟩

/-- The keys of a specification without its exporters have valid values, none of them exporters. -/
theorem specKeys_spec (hdefaults : defaults.Valid)
    (hspec : ∀ metrics ∈ spec.metrics, metrics.Valid) :
    ∀ entry ∈ specKeys defaults spec, entry.2.Valid ∧ entry.2.exporters? = none := by
  intro entry hentry
  rcases List.mem_append.mp hentry with hentry | htraces
  · rcases List.mem_append.mp hentry with hfixed | hmetrics
    · simp only [List.mem_cons, List.not_mem_nil, or_false] at hfixed
      rcases hfixed with rfl | rfl | rfl <;> exact ⟨trivial, rfl⟩
    · cases hm : spec.metrics with
      | none =>
        rw [hm] at hmetrics
        exact absurd hmetrics List.not_mem_nil
      | some metrics =>
        rw [hm] at hmetrics
        exact metricsKeys_spec hdefaults (hspec metrics hm) entry hmetrics
  · cases ht : spec.traces with
    | none =>
      rw [ht] at htraces
      exact absurd htraces List.not_mem_nil
    | some traces =>
      rw [ht] at htraces
      exact tracesKeys_spec traces entry htraces

variable {assembly : Assembly}

theorem templateData_valid (hdefaults : defaults.Valid)
    (hspec : ∀ metrics ∈ spec.metrics, metrics.Valid)
    (hassembly : (TemplateValue.exporters assembly.exporters).Valid) :
    (templateData defaults spec assembly).Valid :=
  (TemplateData.Valid.empty.setAll fun entry hentry =>
    (specKeys_spec hdefaults hspec entry hentry).1).merge hassembly

/-- All numbers of the data are finite if those of the exporters are. -/
theorem templateData_allFinite (hdefaults : defaults.Valid)
    (hspec : ∀ metrics ∈ spec.metrics, metrics.Valid)
    (hassembly : (TemplateValue.exporters assembly.exporters).Valid) :
    (templateData defaults spec assembly).tree.allFinite = true ↔
      ∀ exporter ∈ assembly.exporters, exporter.2.allFinite = true := by
  rw [TemplateData.allFinite_tree (templateData_valid hdefaults hspec hassembly),
    ← Tree.allFinite_ofEntries hassembly.1]
  refine ⟨fun h => h _ (TemplateData.exporters_mem_merge _ assembly), ?_⟩
  intro h entry hentry
  -- The names were put last, the exporters before them, and all other keys before both.
  rcases Entries.mem_of_mem_put hentry with rfl | hentry
  · exact TemplateValue.allFinite_tree rfl
  rcases Entries.mem_of_mem_put hentry with rfl | hentry
  · exact h
  rcases TemplateData.mem_of_mem_setAll hentry with hkey | hnone
  · exact TemplateValue.allFinite_tree (specKeys_spec hdefaults hspec entry hkey).2
  · exact absurd hnone List.not_mem_nil

end

/-! ### Both formats -/

namespace TemplateData

variable {d : TemplateData}

theorem Valid.denoted?_toYaml (h : d.Valid) : Yaml.denoted? d.toYaml = some d.tree.denoted :=
  Yaml.denoted?_write (valid_tree h)

theorem denoted?_toJson (d : TemplateData) :
    Json.denoted? d.toJson = some d.tree.denoted.nulled :=
  Json.denoted?_pretty d.tree

/-- Both texts denote the same just if all numbers are finite. -/
theorem Valid.formats_agree_iff (h : d.Valid) :
    Json.denoted? d.toJson = Yaml.denoted? d.toYaml ↔ d.tree.allFinite = true := by
  rw [denoted?_toJson, h.denoted?_toYaml, Option.some.injEq]
  exact d.tree.nulled_denoted_eq_iff

end TemplateData

section

variable {b : Builder} (hdefaults : b.defaults.Valid) {resource : Monitoring}
  (hresource : resource.Valid) {context : ReconcileContext} {cancelled : Bool} {ambient : Ambient}
  {d : TemplateData} (h : ((build b context cancelled resource).run ambient).value.1 = .ok d)

include hdefaults hresource h

theorem build_valid : d.Valid := by
  obtain ⟨assembly, hviews, rfl⟩ := build_eq_ok h
  exact templateData_valid hdefaults hresource (hviews.valid hresource.distinct)

/-- The numbers of built data are finite just if those of all fragments are. -/
theorem build_allFinite : d.tree.allFinite = true ↔
    ∀ source ∈ resource.exporters?.getD [], ∀ tree, Fragment.parse source.2 = .ok tree →
      tree.allFinite = true := by
  obtain ⟨assembly, hviews, rfl⟩ := build_eq_ok h
  rw [templateData_allFinite hdefaults hresource (hviews.valid hresource.distinct)]
  exact hviews.forall_tree_iff fun tree => tree.allFinite = true

/-- Both texts of built data denote what the data are, except that JSON has null for numbers that
are not finite.  So they denote the same just if no such number stands in a fragment. -/
theorem build_formats :
    Yaml.denoted? d.toYaml = some d.tree.denoted ∧
    Json.denoted? d.toJson = some d.tree.denoted.nulled ∧
    (Json.denoted? d.toJson = Yaml.denoted? d.toYaml ↔
      ∀ source ∈ resource.exporters?.getD [], ∀ tree, Fragment.parse source.2 = .ok tree →
        tree.allFinite = true) := by
  have hvalid := build_valid hdefaults hresource h
  refine ⟨hvalid.denoted?_toYaml, d.denoted?_toJson, ?_⟩
  rw [hvalid.formats_agree_iff, build_allFinite hdefaults hresource h]

end

/-- A resource with one exporter, of the given fragment. -/
def Monitoring.ofFragment (raw : String) : Monitoring :=
  { spec := { space := "ns", metrics := some { exporters := [("debug", raw)] } } }

theorem Monitoring.valid_ofFragment (raw : String) : (ofFragment raw).Valid := by
  intro metrics hmetrics
  obtain rfl := Option.some.inj hmetrics
  exact ⟨fun _ h => absurd h (Option.not_mem_none _), List.pairwise_singleton _ _⟩

/-- Both formats have the same number with a fraction. -/
theorem build_formats_of_fraction :
    Defaults.Valid {} ∧ (Monitoring.ofFragment "a: 1.5").Valid ∧
      ∃ d, ((build {} ⟨"ctx", 0⟩ false (.ofFragment "a: 1.5")).run {}).value.1 = .ok d ∧
        Json.denoted? d.toJson = Yaml.denoted? d.toYaml := by
  have hdefaults : Defaults.Valid {} := by unfold Defaults.Valid; decide
  have hvalid := Monitoring.valid_ofFragment "a: 1.5"
  have hbuilt : ((build {} ⟨"ctx", 0⟩ false (.ofFragment "a: 1.5")).run {}).value.1.toOption.any
      (fun _ => true) = true := by
    decide +kernel
  have hfinite : (Fragment.parse "a: 1.5").toOption.all (·.allFinite) = true := by
    decide +kernel
  obtain ⟨d, hvalue, -⟩ := exists_of_any hbuilt
  refine ⟨hdefaults, hvalid, d, hvalue, (build_formats hdefaults hvalid hvalue).2.2.mpr ?_⟩
  intro source hsource tree hparse
  obtain rfl := List.mem_singleton.mp hsource
  rw [hparse] at hfinite
  exact hfinite

/-- JSON has null for an infinity. -/
theorem build_nulls_infinity :
    ¬ ∀ resource d, Monitoring.Valid resource →
      ((build {} ⟨"ctx", 0⟩ false resource).run {}).value.1 = .ok d →
        Json.denoted? d.toJson = Yaml.denoted? d.toYaml := by
  intro hclaim
  have hdefaults : Defaults.Valid {} := by unfold Defaults.Valid; decide
  have hvalid := Monitoring.valid_ofFragment "x: .inf"
  have hbuilt : ((build {} ⟨"ctx", 0⟩ false (.ofFragment "x: .inf")).run {}).value.1.toOption.any
      (fun _ => true) = true := by
    decide +kernel
  have hinfinite : (Fragment.parse "x: .inf").toOption.any (!·.allFinite) = true := by
    decide +kernel
  obtain ⟨d, hvalue, -⟩ := exists_of_any hbuilt
  obtain ⟨tree, hparse, htree⟩ := exists_of_any hinfinite
  have hagree := hclaim _ d hvalid hvalue
  rw [(build_valid hdefaults hvalid hvalue).formats_agree_iff,
    build_allFinite hdefaults hvalid hvalue] at hagree
  rw [hagree _ (List.mem_singleton_self _) tree hparse] at htree
  nomatch htree

end CollectorTemplate
