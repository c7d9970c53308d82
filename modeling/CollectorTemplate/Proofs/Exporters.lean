/-
Exporters that a manifest writes.

A manifest writes its exporters as a mapping from names to fragments, and the resource holds them as
a table.  What a table cannot hold is a name that is written twice: the last fragment counts, and
the others are lost without a complaint.

* `Entries.length_ofList` : a table has one entry for each key;
* `Document.writtenExporters` : the entries of the exporters mapping, as a document writes them;
* `Monitoring.read_exporters` : the exporters of a resource are the table of those.
-/
import CollectorTemplate.Proofs.Entries
import CollectorTemplate.Proofs.Yaml.Content
import Mathlib.Data.List.Dedup

namespace CollectorTemplate

/-! ### Tables -/

namespace Entries

variable {α : Type}

/-- A table has one entry for each key, however often the key is written. -/
theorem length_ofList (entries : List (String × α)) :
    (ofList entries).length = (keys entries).dedup.length := by
  have hkeys : (keys (ofList entries)).Perm (keys entries).dedup := by
    refine (List.perm_ext_iff_of_nodup (nodup_keys (sorted_ofList entries))
      (List.nodup_dedup _)).mpr fun key => ?_
    have hreverse : key ∈ keys entries.reverse ↔ key ∈ keys entries := by
      rw [keys, List.map_reverse, List.mem_reverse, keys]
    rw [List.mem_dedup, ← hreverse, mem_keys_iff, mem_keys_iff, find?_ofList]
  rw [← hkeys.length_eq, keys, List.length_map]

end Entries

theorem map_eq_ok {ε α β : Type} {x : Except ε α} {f : α → β} {b : β} (h : x.map f = .ok b) :
    ∃ a, x = .ok a ∧ b = f a := by
  cases x with
  | error e => nomatch h
  | ok a => exact ⟨a, rfl, (Except.ok.inj h).symm⟩

namespace Untyped

theorem text_eq_ok {data : Untyped} {s : String} (h : data.text = .ok s) : data = .string s := by
  cases data with
  | string s' => exact congrArg string (Except.ok.inj h)
  | _ => nomatch h

theorem optional_eq_ok {α : Type} {read : Untyped → Except Complaint α} {data : Untyped}
    {value : Option α} (h : data.optional read = .ok value) :
    (data = .null ∧ value = none) ∨ ∃ v, read data = .ok v ∧ value = some v := by
  cases data with
  | null => exact .inl ⟨rfl, (Except.ok.inj h).symm⟩
  | _ => exact .inr (map_eq_ok h)

/-- The data of texts by texts. -/
def ofTexts (written : List (String × String)) : Untyped :=
  .mapping (written.map fun entry => (.string entry.1, .string entry.2))

/-- A table of texts was made of a mapping from texts to texts. -/
theorem table_eq_ok {data : Untyped} {table' : List (String × String)}
    (h : data.table = .ok table') :
    ∃ written, data = ofTexts written ∧ table' = Entries.ofList written := by
  cases data with
  | mapping entries =>
    -- The table grows along the entries, so the induction needs any table to begin with.
    suffices hfold : ∀ read, entries.foldlM (fun (read : List (String × String)) entry => do
        let key ← entry.1.text
        let value ← entry.2.text
        return Entries.insert key value read) read = .ok table' →
        ∃ written : List (String × String),
          entries = written.map (fun entry => (.string entry.1, .string entry.2)) ∧
          table' = written.foldl (fun table entry => Entries.insert entry.1 entry.2 table) read by
      obtain ⟨written, hentries, htable⟩ := hfold [] h
      exact ⟨written, congrArg mapping hentries, htable⟩
    clear h
    induction entries with
    | nil => exact fun read h => ⟨[], rfl, (Except.ok.inj h).symm⟩
    | cons entry entries ih =>
      intro read h
      rw [List.foldlM_cons] at h
      obtain ⟨next, hnext, h⟩ := bind_eq_ok.mp h
      obtain ⟨key, hkey, hnext⟩ := bind_eq_ok.mp hnext
      obtain ⟨value, hvalue, hnext⟩ := bind_eq_ok.mp hnext
      obtain rfl := Except.ok.inj hnext
      obtain ⟨written, hentries, htable⟩ := ih _ h
      refine ⟨(key, value) :: written, ?_, htable⟩
      rw [hentries, List.map_cons, ← text_eq_ok hkey, ← text_eq_ok hvalue]
  | _ => nomatch h

end Untyped

/-! ### Exporters in a document -/

namespace Yaml.Document

variable (d : Document)

/-- The texts that the entries of a mapping write, in their order and with repetitions. -/
def writtenTexts (node : Node) : List (String × String) :=
  (d.content node).pairs.map fun pair =>
    ((d.content pair.1).text?.getD "", (d.content pair.2).text?.getD "")

/-- The exporters that the node of the metrics writes. -/
def metricsExporters? (metrics : Node) : Option Sources :=
  (d.field? ["storage", "resources", "replicas", "exporters"] "exporters" metrics).map
    d.writtenTexts

/-- The exporters that the node of a specification writes. -/
def specExporters? (spec : Node) : Option Sources :=
  (d.entry? "metrics" spec).bind d.metricsExporters?

/-- The exporters that the node of a resource writes. -/
def resourceExporters? (resource : Node) : Option Sources :=
  (d.entry? "spec" resource).bind d.specExporters?

/-- The exporters that a manifest writes, in their order and with repetitions. -/
def writtenExporters : Sources := (d.root.bind d.resourceExporters?).getD []

variable {d}

theorem writtenTexts_eq {node : Node} {written : List (String × String)}
    (h : d.Means node (.ofTexts written)) : d.writtenTexts node = written := by
  obtain hdata | ⟨_, _, _, _, -, hdata, -⟩ |
    ⟨_, _, pairs, entries, hnode, hdata, hentries⟩ := h.cases
  · exact absurd rfl ((Node.not_collection_of_data? hdata).2 _)
  · nomatch hdata
  · rw [writtenTexts, hnode]
    obtain rfl := Untyped.mapping.inj hdata
    rw [List.forall₂_map_right_iff] at hentries
    show List.map _ pairs = written
    clear h hnode hdata
    induction hentries with
    | nil => rfl
    | @cons pair entry pairs written head _ ih =>
      rw [List.map_cons, ih, head.1.text, head.2.text]
      rfl

end Yaml.Document

/-! ### The exporters of a resource -/

open Yaml (Document Node)

theorem Metrics.exporters_eq {d : Document} {node : Node} {data : Untyped} {metrics : Metrics}
    (hmeans : d.Means node data) (h : Metrics.ofUntyped data = .ok metrics) :
    metrics.exporters =
      Entries.ofList ((d.metricsExporters? node).getD []) := by
  unfold Metrics.ofUntyped at h
  have htakes := Untyped.record_takes "exporters" Metrics.exporters
    (fun metrics field data metrics' hfield h => ?_) (by decide) h
  · have hrel := hmeans.field ["storage", "resources", "replicas", "exporters"] "exporters"
    rw [Document.metricsExporters?]
    generalize d.field? _ _ node = exporters at hrel ⊢
    generalize data.field? _ _ = exportersData at hrel htakes
    cases hrel with
    | none => exact htakes
    | some hmeans =>
      obtain ⟨before, after, hread, -, hafter⟩ := htakes
      obtain ⟨exporters, htable, hread⟩ := bind_eq_ok.mp hread
      obtain ⟨written, rfl, rfl⟩ := Untyped.table_eq_ok htable
      rw [hafter, ← Except.ok.inj hread]
      show Entries.ofList written = Entries.ofList (d.writtenTexts _)
      rw [Document.writtenTexts_eq hmeans]
  · -- No other field of the metrics touches the exporters.
    split at h
    · obtain ⟨_, -, h⟩ := bind_eq_ok.mp h
      rw [← Except.ok.inj h]
    · obtain ⟨_, -, h⟩ := bind_eq_ok.mp h
      rw [← Except.ok.inj h]
    · obtain ⟨_, -, h⟩ := bind_eq_ok.mp h
      rw [← Except.ok.inj h]
    · exact absurd rfl hfield
    · rw [← Except.ok.inj h]

/-- The exporters of a specification are those written in the node of its metrics. -/
theorem MonitoringSpec.exporters_eq {d : Document} {node : Node} {data : Untyped}
    {spec : MonitoringSpec}
    (hmeans : ∀ fields : List String, ∀ field ∈ fields,
      Option.Rel d.Means (d.entry? field node) (data.field? fields field))
    (h : MonitoringSpec.ofUntyped data = .ok spec) :
    (spec.metrics.map (·.exporters)).getD [] =
      Entries.ofList ((d.specExporters? node).getD []) := by
  unfold MonitoringSpec.ofUntyped at h
  have htakes := Untyped.record_takes "metrics" MonitoringSpec.metrics
    (fun spec field data spec' hfield h => ?_) (by decide) h
  · have hrel := hmeans ["namespace", "metrics", "traces"] "metrics" (by decide)
    rw [Document.specExporters?]
    generalize d.entry? "metrics" node = metricsNode at hrel ⊢
    generalize data.field? _ _ = metricsData at hrel htakes
    cases hrel with
    | none =>
      rw [show spec.metrics = none from htakes]
      rfl
    | @some metricsNode metricsData hmeans =>
      obtain ⟨before, after, hread, -, hafter⟩ := htakes
      obtain ⟨metrics, hmetrics, hread⟩ := bind_eq_ok.mp hread
      rw [hafter, ← Except.ok.inj hread]
      show (metrics.map (·.exporters)).getD [] =
        Entries.ofList ((d.metricsExporters? metricsNode).getD [])
      obtain ⟨rfl, rfl⟩ | ⟨value, hvalue, rfl⟩ := Untyped.optional_eq_ok hmetrics
      · -- Null is no record, so its node has no exporters.
        have hrel := hmeans.field ["storage", "resources", "replicas", "exporters"] "exporters"
        rw [Document.metricsExporters?]
        generalize d.field? _ _ metricsNode = exporters at hrel ⊢
        cases hrel with
        | none => rfl
      · exact Metrics.exporters_eq hmeans hvalue
  · split at h
    · obtain ⟨_, -, h⟩ := bind_eq_ok.mp h
      rw [← Except.ok.inj h]
    · exact absurd rfl hfield
    · obtain ⟨_, -, h⟩ := bind_eq_ok.mp h
      rw [← Except.ok.inj h]
    · rw [← Except.ok.inj h]

namespace Yaml

/-- A step that cannot complain, and what is made of its result. -/
theorem lifted_eq {α β : Type} {x : Reads α} {f : α → β} {before after : Nat} {b : β}
    (h : (do let a ← (x : Reads _); return f a : ExceptT Complaint Reads β).run.run before =
      .ok (.ok b, after)) : ∃ a between, x.run before = .ok (a, between) ∧ b = f a := by
  cases hx : x.run before with
  | error e => simp [hx] at h
  | ok result =>
    simp only [bind_pure_comp, ExceptT.run_map, ExceptT.run_liftM, Functor.map_map,
      StateT.run_map, hx, Except.map_ok, Except.ok.injEq, Prod.mk.injEq] at h
    exact ⟨result.1, result.2, rfl, (Except.ok.inj h.1).symm⟩

end Yaml

namespace Monitoring

theorem exporters_eq {d : Document} {depth : Nat} {path : Yaml.Path} {node : Node}
    {before after : Nat} {m : Monitoring}
    (h : (ofNode d depth path node).run before = .ok (m, after)) :
    m.exporters?.getD [] = Entries.ofList ((d.resourceExporters? node).getD []) := by
  unfold ofNode at h
  have htakes := Document.record_takes "spec" Monitoring.spec (by decide)
    (fun resource field path node resource' before after hfield h => ?_) h
  · rw [Document.resourceExporters?]
    generalize d.entry? "spec" node = specNode at htakes ⊢
    cases specNode with
    | none =>
      rw [exporters?, show m.spec = {} from htakes]
      rfl
    | some specNode =>
      obtain ⟨before, after, ⟨path, j, j', hread⟩, -, hafter⟩ := htakes
      obtain ⟨spec, between, hspec, rfl⟩ := Yaml.lifted_eq hread
      obtain ⟨data, hdata, hmeans⟩ := Document.loose_eq hspec
      rw [exporters?, hafter]
      exact MonitoringSpec.exporters_eq hmeans hdata
  · -- No other field of a resource touches the specification.
    split at h
    · obtain ⟨_, _, -, rfl⟩ := Yaml.lifted_eq h
      rfl
    · obtain ⟨_, _, -, rfl⟩ := Yaml.lifted_eq h
      rfl
    · obtain ⟨_, _, -, rfl⟩ := Yaml.lifted_eq h
      rfl
    · exact absurd rfl hfield
    · obtain rfl := Except.ok.inj (Prod.mk.inj (Except.ok.inj h)).1
      rfl

theorem readAny_exporters {manifest : String} {m : Monitoring} (h : readAny manifest = .ok m) :
    m.exporters?.getD [] =
      Entries.ofList (Document.ofString manifest).writtenExporters := by
  unfold readAny at h
  generalize Document.ofString manifest = d at h ⊢
  rw [Document.writtenExporters]
  rcases Document.decode_eq_ok h with ⟨hroot, hmissing⟩ | ⟨root, after, hroot, hread⟩
  · rw [hroot, ← Except.ok.inj hmissing]
    rfl
  · rw [hroot]
    exact exporters_eq hread

/-- The exporters of a resource are the table of those that its manifest writes: of several with one
name the last counts, and their number is that of the different names.  So none is lost iff no name
is written twice. -/
theorem read_exporters {manifest : String} {m : Monitoring} (h : read manifest = .ok m) :
    m.exporters?.getD [] = Entries.ofList (Document.ofString manifest).writtenExporters ∧
    (m.exporters?.getD []).length =
      (Entries.keys (Document.ofString manifest).writtenExporters).dedup.length ∧
    ((m.exporters?.getD []).length = (Document.ofString manifest).writtenExporters.length ↔
      (Entries.keys (Document.ofString manifest).writtenExporters).Nodup) := by
  have hany : readAny manifest = .ok m := by
    unfold read at h
    split at h
    · nomatch h
    · split at h
      · nomatch h
      · rename_i hread _
        rw [hread, Except.ok.inj h]
  have htable := readAny_exporters hany
  rw [htable, Entries.length_ofList]
  refine ⟨rfl, rfl, ?_⟩
  have hlength : (Entries.keys (Document.ofString manifest).writtenExporters).length =
      (Document.ofString manifest).writtenExporters.length := List.length_map _
  rw [← hlength]
  exact ⟨fun hlength => List.dedup_eq_self.mp ((List.dedup_sublist _).eq_of_length hlength),
    fun hdistinct => congrArg List.length hdistinct.dedup⟩

/-- A manifest with two exporters of different names. -/
def twoExporters : String := "spec:\n  metrics:\n    exporters:\n      a: '1'\n      b: '2'\n"

theorem read_exporters_of_distinct :
    ∃ m, read twoExporters = .ok m ∧
      (m.exporters?.getD []).length = (Document.ofString twoExporters).writtenExporters.length := by
  have haccepted : (read twoExporters).isOk = true := by decide +kernel
  cases hread : read twoExporters with
  | error e =>
    rw [hread] at haccepted
    nomatch haccepted
  | ok m => exact ⟨m, rfl, (read_exporters hread).2.2.mpr (by decide +kernel)⟩

/-- A manifest with two exporters of one name. -/
def repeatedExporter : String :=
  "spec:\n  metrics:\n    exporters:\n      a: '1'\n      a: '2'\n"

/-- The manifest is accepted, and only the last of the two is kept. -/
theorem read_loses_repeated :
    ¬ ∀ manifest m, read manifest = .ok m →
      (m.exporters?.getD []).length = (Document.ofString manifest).writtenExporters.length := by
  intro hclaim
  have hkept : (read repeatedExporter).toOption.map (·.exporters?.getD []) = some [("a", "2")] := by
    decide +kernel
  have hwritten : (Document.ofString repeatedExporter).writtenExporters =
      [("a", "1"), ("a", "2")] := by
    decide +kernel
  cases hread : read repeatedExporter with
  | error e =>
    rw [hread] at hkept
    nomatch hkept
  | ok m =>
    rw [hread] at hkept
    have hlength := hclaim _ m hread
    have hexporters : m.exporters?.getD [] = [("a", "2")] := Option.some.inj hkept
    rw [hexporters, hwritten] at hlength
    exact absurd hlength (by decide)

end Monitoring

end CollectorTemplate
