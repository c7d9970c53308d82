/-
Unknown entries of manifests.

Fields that a record does not know are skipped, so a manifest with an entry more is read as the same
resource.  The outer records skip the value of such an entry without a look at it.  The
specification is read as data as a whole, with what is skipped afterwards, and data that get a type
later hold no tags: there an entry is ignored only if no tag stands in its value.

* `Untyped.record_gains`, `Untyped.record_under` : records in data do not depend on unknown entries;
* `Monitoring.Part` : the mappings of a manifest that have fields;
* `Monitoring.Part.Adds` : a manifest with an entry more in a part;
* `Monitoring.read_added` : such a manifest is read as the same resource, unless the value of the
  entry is not skipped and holds a tag; then it is refused.
-/
import CollectorTemplate.Proofs.Yaml.Grown

namespace CollectorTemplate

/-! ### Records in data -/

namespace Untyped

section

variable {α : Type} {name : String} {blank : α} {data data' : Untyped}

theorem recordEntries_congr {fields : List String}
    {read : α → String → Untyped → Except Complaint α}
    {rest : List (Untyped × Untyped) → List (Untyped × Untyped) → Prop}
    (hrest : ∀ seen record left right, rest left right →
      recordEntries fields read seen record right = recordEntries fields read seen record left)
    {n : Nat} {seen : List String} {record : α} {entries entries' : List (Untyped × Untyped)}
    (h : Until Eq rest n entries entries') :
    recordEntries fields read seen record entries' =
      recordEntries fields read seen record entries := by
  induction h generalizing seen record with
  | now h => exact hrest _ _ _ _ h
  | @later _ entry _ _ _ hsame _ ih =>
    obtain rfl := hsame
    rw [recordEntries, recordEntries]
    refine bind_congr fun found => ?_
    cases found with
    | none => exact ih
    | some field =>
      dsimp only
      split
      · rfl
      · exact bind_congr fun record => ih

/-- An entry more that is unknown is skipped. -/
theorem record_gains {fields : List String} {read : α → String → Untyped → Except Complaint α}
    {text : String} (htext : text ∉ fields) {value : Untyped}
    (h : Gains (.string text, value) data data') :
    Untyped.record name fields blank read data' = Untyped.record name fields blank read data := by
  cases h with
  | mapping h =>
    refine recordEntries_congr ?_ h
    rintro seen record left _ ⟨hrest⟩
    obtain rfl : left = _ := List.forall₂_eq_eq_eq ▸ hrest
    have hfound : fields.find? (· == text) = none :=
      List.find?_eq_none.mpr fun field hfield heq => htext (eq_of_beq heq ▸ hfield)
    rw [recordEntries, fieldOf, hfound]
    rfl

theorem foldlM_under {fields : List String} {field : String}
    {read : α → String → Untyped → Except Complaint α} {inner : Untyped → Untyped → Prop}
    (hread : ∀ record v v', inner v v' → read record field v' = read record field v) {n : Nat}
    {items items' : List Untyped} (hfield : fields[n]? = some field)
    (h : Until Eq (First Eq inner) n items items') (record : α) :
    (fields.zip items').foldlM (fun record item => read record item.1 item.2) record =
      (fields.zip items).foldlM (fun record item => read record item.1 item.2) record := by
  induction h generalizing fields record with
  | now h =>
    cases h with
    | mk hfirst hrest =>
      obtain rfl := List.forall₂_eq_eq_eq ▸ hrest
      cases fields with
      | nil => rfl
      | cons name fields =>
        obtain rfl : name = field := Option.some.inj hfield
        rw [List.zip_cons_cons, List.zip_cons_cons, List.foldlM_cons, List.foldlM_cons,
          hread _ _ _ hfirst]
  | later hsame _ ih =>
    obtain rfl := hsame
    cases fields with
    | nil => rfl
    | cons name fields =>
      rw [List.zip_cons_cons, List.zip_cons_cons, List.foldlM_cons, List.foldlM_cons]
      exact bind_congr fun record => ih hfield record

/-- A field whose data differ is taken up as before if it is read as the same. -/
theorem record_under {field : RecordField} {read : α → String → Untyped → Except Complaint α}
    {inner : Untyped → Untyped → Prop}
    (hread : ∀ record v v', inner v v' → read record field.name v' = read record field.name v)
    (h : Under field inner data data') :
    Untyped.record name field.all blank read data' =
      Untyped.record name field.all blank read data := by
  cases h with
  | mapping h =>
    refine recordEntries_congr ?_ h
    rintro seen record _ _ (@⟨⟨key, value⟩, ⟨_, value'⟩, left, _, ⟨hnamed, rfl, hvalue⟩, hrest⟩)
    obtain rfl : left = _ := List.forall₂_eq_eq_eq ▸ hrest
    rw [recordEntries, recordEntries, fieldOf_of_names hnamed]
    simp only [bind, Except.bind, hread record value value' hvalue]
  | sequence h hfield =>
    change recordItems field.all read blank _ = recordItems field.all read blank _
    rw [recordItems, recordItems, foldlM_under hread hfield h, h.length_eq]

end

/-- Data that differ in an entry of a mapping are not null. -/
theorem GainsAt.not_null {entry : Untyped × Untyped} {path : List RecordField}
    {data data' : Untyped} (h : GainsAt entry path data data') : data ≠ .null ∧ data' ≠ .null := by
  cases path with
  | nil => cases h; exact ⟨nofun, nofun⟩
  | cons => cases h <;> exact ⟨nofun, nofun⟩

theorem optional_of_ne_null {α : Type} {data : Untyped} (h : data ≠ .null)
    (read : Untyped → Except Complaint α) : data.optional read = (read data).map some := by
  cases data with
  | null => exact absurd rfl h
  | _ => rfl

/-- An option is read as the same if what is set is. -/
theorem optional_gains {α : Type} {read : Untyped → Except Complaint α} {entry : Untyped × Untyped}
    {path : List RecordField} {data data' : Untyped} (h : GainsAt entry path data data')
    (hread : read data' = read data) : data'.optional read = data.optional read := by
  obtain ⟨hdata, hdata'⟩ := h.not_null
  rw [optional_of_ne_null hdata, optional_of_ne_null hdata', hread]

end Untyped

/-! ### Parts of a manifest -/

namespace Monitoring

/-- The mappings in the specification that have fields, and the specification itself. -/
inductive SpecPart
  | whole
  | metrics
  | metricsStorage
  | metricsResources
  | traces
  | tracesStorage
  deriving Repr, DecidableEq

namespace SpecPart

def fields : SpecPart → List String
  | whole => ["namespace", "metrics", "traces"]
  | metrics => ["storage", "resources", "replicas", "exporters"]
  | metricsStorage => ["size", "retention"]
  | metricsResources => ["cpuLimit", "memoryLimit", "cpuRequest", "memoryRequest"]
  | traces => ["storage", "sampleRatio"]
  | tracesStorage => ["backend", "size", "secret", "retention"]

/-- The fields that lead from the specification to a part in it. -/
def path : SpecPart → List RecordField
  | whole => []
  | metrics => [{ all := whole.fields, name := "metrics" }]
  | metricsStorage =>
    [{ all := whole.fields, name := "metrics" }, { all := metrics.fields, name := "storage" }]
  | metricsResources =>
    [{ all := whole.fields, name := "metrics" }, { all := metrics.fields, name := "resources" }]
  | traces => [{ all := whole.fields, name := "traces" }]
  | tracesStorage =>
    [{ all := whole.fields, name := "traces" }, { all := traces.fields, name := "storage" }]

end SpecPart

/-- The mappings of a manifest that have fields. -/
inductive Part
  | resource
  | metadata
  | spec (part : SpecPart)
  deriving Repr, DecidableEq

namespace Part

def fields : Part → List String
  | resource => ["apiVersion", "kind", "metadata", "spec"]
  | metadata => ["name", "namespace"]
  | spec part => part.fields

/-- Whether the values of unknown entries are skipped without a look at them. -/
def skips : Part → Bool
  | resource | metadata => true
  | spec _ => false

/-- How deeply a value may be nested that is put into a part: where it is skipped, as deeply as in a
document of its own. -/
def room : Part → Nat
  | resource | metadata => Yaml.depthLimit
  | spec part => Yaml.depthLimit - 2 - part.path.length

end Part

end Monitoring

open Monitoring (SpecPart Part)

section

variable {text : String} {v data data' : Untyped} {entry : Untyped × Untyped}
  {path : List RecordField}

theorem MonitoringSpec.ofUntyped_under_metrics
    (hread : ∀ data data', Untyped.GainsAt entry path data data' →
      Metrics.ofUntyped data' = Metrics.ofUntyped data)
    (h : Untyped.GainsAt entry ({ all := SpecPart.whole.fields, name := "metrics" } :: path)
      data data') :
    ofUntyped data' = ofUntyped data := by
  refine Untyped.record_under (fun record data data' h => ?_) h
  simp only [Untyped.optional_gains h (hread _ _ h)]

theorem MonitoringSpec.ofUntyped_under_traces
    (hread : ∀ data data', Untyped.GainsAt entry path data data' →
      Traces.ofUntyped data' = Traces.ofUntyped data)
    (h : Untyped.GainsAt entry ({ all := SpecPart.whole.fields, name := "traces" } :: path)
      data data') :
    ofUntyped data' = ofUntyped data := by
  refine Untyped.record_under (fun record data data' h => ?_) h
  simp only [Untyped.optional_gains h (hread _ _ h)]

/-- The specification in data does not depend on entries that are unknown. -/
theorem MonitoringSpec.ofUntyped_gains {part : SpecPart} (htext : text ∉ part.fields)
    (h : Untyped.GainsAt (.string text, v) part.path data data') :
    ofUntyped data' = ofUntyped data := by
  cases part with
  | whole => exact Untyped.record_gains htext h
  | metrics =>
    refine ofUntyped_under_metrics (fun data data' h => ?_) h
    exact Untyped.record_gains htext h
  | metricsStorage =>
    refine ofUntyped_under_metrics (fun data data' h => ?_) h
    refine Untyped.record_under (fun record data data' h => ?_) h
    have hstorage : MetricsStorage.ofUntyped data' = MetricsStorage.ofUntyped data :=
      Untyped.record_gains htext h
    simp only [Untyped.optional_gains h hstorage]
  | metricsResources =>
    refine ofUntyped_under_metrics (fun data data' h => ?_) h
    refine Untyped.record_under (fun record data data' h => ?_) h
    have hresources : MetricsResources.ofUntyped data' = MetricsResources.ofUntyped data :=
      Untyped.record_gains htext h
    simp only [Untyped.optional_gains h hresources]
  | traces =>
    refine ofUntyped_under_traces (fun data data' h => ?_) h
    exact Untyped.record_gains htext h
  | tracesStorage =>
    refine ofUntyped_under_traces (fun data data' h => ?_) h
    refine Untyped.record_under (fun record data data' h => ?_) h
    have hstorage : TracesStorage.ofUntyped data' = TracesStorage.ofUntyped data :=
      Untyped.record_gains htext h
    simp only [hstorage]

end

open Yaml (Document Node Path Mark AlikeEntries Reads)
open Yaml.Document (Leads EntriesAlike Change Matches)

section

variable {d d' : Document} {same : Nat → Nat → Prop} {more more' : Nat} {depth : Nat}
  {path path' : Path} {node node' : Node}

/-- The name and the namespace are read as before where the entries do not change, or with an entry
more that is unknown. -/
theorem ObjectMeta.leads_ofNode (hmatches : Matches same d d') (hmore : more ≤ more')
    (hroom : d.jumpLimit + more' ≤ d'.jumpLimit)
    (hentries : Leads d more more
      (EntriesAlike same (Change d same Part.metadata.fields fun _ _ _ => False))
      (d.recordEntries "ObjectMeta" depth path node)
      (d'.recordEntries "ObjectMeta" depth path' node')) :
    Leads d more more' Eq (ofNode d depth path node) (ofNode d' depth path' node') := by
  unfold ofNode
  refine Document.leads_record hmatches hmore hroom (fun some hsome => ?_) (fun _ _ _ _ _ _ h =>
    h.elim) hentries
  intro record name path path' node node' h place place' within within'
  dsimp only
  split
  · exact Document.leads_taken (Document.leads_string hmatches hsome h _ _) _ _ _ _ _
  · rw [Document.blame_bind, Document.blame_bind]
    refine (Document.leads_optionalText hmatches hsome h _ _ _ _ _ _).bind ?_
    rintro space _ rfl
    exact .pure rfl
  · exact .pure rfl

theorem ObjectMeta.leads_ofNode_alike (hmatches : Matches same d d')
    (hroom : d.jumpLimit + more ≤ d'.jumpLimit) (h : node.Alike same node') :
    Leads d more more Eq (ofNode d depth path node) (ofNode d' depth path' node') :=
  leads_ofNode hmatches (Nat.le_refl _) hroom
    (Document.leads_recordEntries_change hmatches hroom h _ _ _ _)

/-- How the nodes of a field of the resource differ if an entry more stands in a part below. -/
def Monitoring.Part.FieldGains (d : Document) (same : Nat → Nat → Prop) (entry : Node × Node) :
    Part → String → Node → Node → Prop
  | .resource, _ => fun _ _ => False
  | .metadata, field => fun node node' => field = "metadata" ∧ node.Gains same entry node'
  | .spec part, field =>
    fun node node' => field = "spec" ∧ node.LooseGains d same entry part.path node'

/-- Manifests of which the second has an entry more in a part. -/
def Monitoring.Part.Gains (d : Document) (same : Nat → Nat → Prop) (entry : Node × Node) :
    Part → Node → Node → Prop
  | .resource => Node.Gains same entry
  | .metadata => Node.Under same (d.writes "metadata") (Node.Gains same entry)
  | .spec part => Node.Under same (d.writes "spec") (Node.LooseGains d same entry part.path)

/-- A manifest is read as before with an entry more that is unknown, if the value of the entry can
be read where it is not skipped. -/
theorem Monitoring.leads_ofNode {part : Part} {key value : Node} {text : String} {v : Untyped}
    (hmatches : Matches same d d') (hmore : more ≤ more')
    (hroom : d.jumpLimit + more' ≤ d'.jumpLimit) (hname : key.localName? = none)
    (hkey : key.data? = some (.string text)) (htext : text ∉ part.fields)
    (hwhole : value.breakage? = none)
    (hvalue : part.skips = false → ∀ path, Leads d more more' (fun _ b => b = v) (Pure.pure ())
      (d'.untyped .buffer part.room path value))
    (h : part.Gains d same (key, value) node node') (path path' : Path) :
    Leads d more more' Eq (ofNode d Yaml.depthLimit path node)
      (ofNode d' Yaml.depthLimit path' node') := by
  have hkeyText := Node.text?_of_data? hkey
  have hentries : Leads d more more
      (EntriesAlike same (Change d same Part.resource.fields (part.FieldGains d same (key, value))))
      (d.recordEntries "Monitoring" Yaml.depthLimit path node)
      (d'.recordEntries "Monitoring" Yaml.depthLimit path' node') := by
    cases part with
    | resource => exact Document.leads_recordEntries_gains hkeyText htext hwhole h _ _ _ _
    | metadata =>
      exact Document.leads_recordEntries_under (by decide) (h.imp fun _ _ h => ⟨rfl, h⟩) _ _ _ _
    | spec part =>
      exact Document.leads_recordEntries_under (by decide) (h.imp fun _ _ h => ⟨rfl, h⟩) _ _ _ _
  unfold ofNode
  refine Document.leads_record hmatches hmore hroom (fun some hsome => ?_) ?_ hentries
  · intro record name path path' node node' h place place' within within'
    dsimp only
    split
    · exact Document.leads_taken (Document.leads_string hmatches hsome h _ _) _ _ _ _ _
    · exact Document.leads_taken (Document.leads_string hmatches hsome h _ _) _ _ _ _ _
    · exact Document.leads_taken (ObjectMeta.leads_ofNode_alike hmatches hsome h) _ _ _ _ _
    · exact Document.leads_taken (Document.leads_loose_alike hmatches hsome h) _ _ _ _ _
    · exact .pure rfl
  · intro record field path path' node node' h place place' within within'
    cases part with
    | resource => exact h.elim
    | metadata =>
      obtain ⟨rfl, h⟩ := h
      exact Document.leads_taken (ObjectMeta.leads_ofNode hmatches hmore hroom
        (Document.leads_recordEntries_gains hkeyText htext hwhole h _ _ _ _)) _ _ _ _ _
    | spec part =>
      obtain ⟨rfl, h⟩ := h
      have hdepth : Yaml.depthLimit - 1 = (Part.spec part).room + part.path.length + 1 := by
        cases part <;> rfl
      rw [hdepth]
      exact Document.leads_taken (Document.leads_loose_gains hmatches hmore hroom hname hkey
        (hvalue rfl) h fun data data' hdata => MonitoringSpec.ofUntyped_gains htext hdata) _ _ _ _ _

end

/-! ### Manifests with an entry more -/

namespace Monitoring

/-- The manifest `d'` is the manifest `d` with an entry more in a part.  The key of the entry is a
text, its value is what `v` holds, and aliases stand for the same as before.  The events of both
documents are among those of `d'`, which ends as a manifest that can be read does.

Not covered are parts that stand behind an alias, as the entry would be one more in the node that the
alias stands for, and values with an anchor that is used later on in `d`, as the alias would stand
for another node then. -/
inductive Part.Adds (part : Part) (text : String) (d v d' : Document) : Prop
  | mk {same same' : Nat → Nat → Prop} {root root' key value : Node} (hroot : d.root = some root)
      (hroot' : d'.root = some root') (hmatches : Matches same d d') (hheld : Matches same' v d')
      (hname : key.localName? = none) (hkey : key.data? = some (.string text))
      (halike : v.held.Alike same' value) (hgains : part.Gains d same (key, value) root root')
      (hsize : d.size + v.size ≤ d'.size) (htail : d'.tail = none) (hmore : d'.more = false)

/-- What was read of a manifest was read of it whatever its kind. -/
theorem readAny_of_read {manifest : String} {m : Monitoring} (h : read manifest = .ok m) :
    readAny manifest = .ok m := by
  unfold read at h
  cases hany : readAny manifest with
  | error e =>
    rw [hany] at h
    nomatch h
  | ok resource =>
    rw [hany] at h
    dsimp only at h
    split at h
    · nomatch h
    · rw [Except.ok.inj h]

section

variable {part : Part} {manifest value manifest' text : String} {m : Monitoring} {data : Untyped}

/-- What was read of a manifest is read of it with an entry more. -/
theorem readAny_added (hread : readAny manifest = .ok m) (htext : text ∉ part.fields)
    (hvalue : (Document.ofString value).dataWithin .value part.room = .ok data)
    (hadds : part.Adds text (.ofString manifest) (.ofString value) (.ofString manifest'))
    (htag : part.skips = true ∨ ¬data.HoldsTag) : readAny manifest' = .ok m := by
  obtain ⟨hroot, hroot', hmatches, hheld, hname, hkey, halike, hgains, hsize, htail, hmore⟩ := hadds
  have hroom : (Document.ofString manifest).jumpLimit + (Document.ofString value).jumpLimit ≤
      (Document.ofString manifest').jumpLimit := by
    unfold Document.jumpLimit
    omega
  have hleads := leads_ofNode (v := data) hmatches (Nat.zero_le _) hroom hname hkey htext
    (Document.breakage?_of_alike _ halike) (fun hskips path => ?_) hgains .root .root
  · obtain ⟨_, hread', rfl⟩ :=
      Document.decode_of_leads (.ok {}) hroot hroot' htail hmore hleads hread
    exact hread'
  · refine Document.leads_value hheld halike hvalue hroom ?_ path
    exact htag.resolve_left (by rw [hskips]; exact Bool.false_ne_true)

/-- Data were read of the value of an entry more, if the manifest was read and does not skip it. -/
theorem means_of_ofNode {inner : SpecPart} {d d' : Document} {same : Nat → Nat → Prop}
    {node node' key value : Node} {path : Path} {before after : Nat}
    (hmatches : Matches same d d')
    (h : (Part.spec inner).Gains d same (key, value) node node')
    (hrun : (ofNode d' Yaml.depthLimit path node').run before = .ok (m, after)) :
    ∃ v, d'.Means value v := by
  cases h with
  | mapping h =>
    obtain ⟨a, b, hb, hkey, halike, hinner⟩ := h.mem_first
    rw [← Document.writes_of_alike hmatches halike] at hkey
    unfold ofNode at hrun
    obtain ⟨record, path, place, within, next, before, after, hgives⟩ :=
      Document.gives_of_record hrun (by decide) hb hkey
    simp only [Document.blame_bind, Document.blame_lift] at hgives
    obtain ⟨spec, between, hspec, -⟩ := Yaml.reads_bind hgives
    exact Document.means_of_looseGains hinner hspec

/-- A manifest with an entry more that is unknown is read as the same resource where the value of
the entry is skipped, or holds no tag.  Otherwise it is refused. -/
theorem read_added (hread : read manifest = .ok m) (htext : text ∉ part.fields)
    (hvalue : (Document.ofString value).dataWithin .value part.room = .ok data)
    (hadds : part.Adds text (.ofString manifest) (.ofString value) (.ofString manifest')) :
    (part.skips = true ∨ ¬data.HoldsTag → read manifest' = .ok m) ∧
      (part.skips = false → data.HoldsTag →
        ∃ cause, read manifest' = .error (.unreadable cause)) := by
  refine ⟨fun htag => ?_, fun hskips htag => ?_⟩
  · have hany := readAny_of_read hread
    rw [read, hany] at hread
    rw [read, readAny_added hany htext hvalue hadds htag]
    exact hread
  · obtain ⟨hroot, hroot', hmatches, hheld, hname, hkey, halike, hgains, hsize, -, -⟩ := hadds
    cases part with
    | resource | metadata => nomatch hskips
    | spec inner =>
      unfold read
      cases hany : readAny manifest' with
      | error cause => exact ⟨cause, rfl⟩
      | ok m' =>
        -- The value was read as data that get a type later, and so holds no tag.
        obtain ⟨hnone, -⟩ | ⟨root, after, hsome, hrun⟩ := Document.decode_eq_ok hany
        · rw [hroot'] at hnone
          nomatch hnone
        · obtain rfl := Option.some.inj (hroot'.symm.trans hsome)
          obtain ⟨v, hmeans⟩ := means_of_ofNode hmatches hgains hrun
          have hroom : (Document.ofString value).jumpLimit + 0 ≤
              (Document.ofString manifest').jumpLimit := by
            unfold Document.jumpLimit
            omega
          obtain ⟨after', hstrict, -⟩ := Document.value_run hheld halike hvalue hroom .root
          exact absurd htag (Document.taglessAt _ _ _ _ _ _ _ _ hstrict hmeans)

end

open Yaml (DocumentEvents TagText)

/-- An entry more in a specification without entries, whose value has a tag or none. -/
theorem adds_of_roots {d v d' : Document} {tag : Option TagText} {p q r s p' q' r' s' t : Mark}
    (hroot : d.root =
      some (.mapping p none [(.scalar q none .plain "spec".toList, .mapping r none [])]))
    (hvalue : v.root = some (.scalar s tag .plain ['y']))
    (hroot' : d'.root = some (.mapping p' none [(.scalar q' none .plain "spec".toList,
      .mapping r' none [(.scalar s' none .plain ['x'], .scalar t tag .plain ['y'])])]))
    (hsize : d.size + v.size ≤ d'.size) (htail : d'.tail = none) (hmore : d'.more = false) :
    (Part.spec .whole).Adds "x" d v d' := by
  have hnone {d : Document} : Matches (fun _ _ => False) d d' := fun _ _ => False.elim
  have hkey : (Node.scalar s' none .plain ['x']).data? = some (.string "x") := rfl
  have halike : v.held.Alike (fun _ _ => False) (.scalar t tag .plain ['y']) := by
    rw [Document.held, hvalue]
    exact .scalar
  refine .mk hroot hroot' hnone hnone rfl hkey halike ?_ hsize htail hmore
  exact .mapping (.now (.mk ⟨rfl, .scalar, .mapping (.now (.mk .nil))⟩ .nil))

/-- The documents of a text, of a specification without entries, and of one with a text. -/
theorem ofString_text :
    Document.ofString "y" = { root := some (.scalar {} none .plain ['y']), size := 1 } := by
  have hevents : DocumentEvents.ofString "y" = { events := [⟨.scalar {} .plain ['y'], {}⟩] } := by
    decide +kernel
  rw [Document.ofString, hevents]
  rfl

theorem ofString_spec : Document.ofString "spec: {}" = {
    root := some (.mapping {} none [(.scalar {} none .plain "spec".toList,
      .mapping ⟨6, 6, 0, 6⟩ none [])])
    size := 5 } := by
  have hevents : DocumentEvents.ofString "spec: {}" = { events := [
      ⟨.mappingStart {}, {}⟩, ⟨.scalar {} .plain "spec".toList, {}⟩,
      ⟨.mappingStart {}, ⟨6, 6, 0, 6⟩⟩, ⟨.mappingEnd, ⟨7, 7, 0, 7⟩⟩,
      ⟨.mappingEnd, ⟨8, 8, 1, 0⟩⟩] } := by
    decide +kernel
  rw [Document.ofString, hevents]
  rfl

theorem ofString_spec_text : Document.ofString "spec: {x: y}" = {
    root := some (.mapping {} none [(.scalar {} none .plain "spec".toList,
      .mapping ⟨6, 6, 0, 6⟩ none
        [(.scalar ⟨7, 7, 0, 7⟩ none .plain ['x'], .scalar ⟨10, 10, 0, 10⟩ none .plain ['y'])])])
    size := 7 } := by
  have hevents : DocumentEvents.ofString "spec: {x: y}" = { events := [
      ⟨.mappingStart {}, {}⟩, ⟨.scalar {} .plain "spec".toList, {}⟩,
      ⟨.mappingStart {}, ⟨6, 6, 0, 6⟩⟩, ⟨.scalar {} .plain ['x'], ⟨7, 7, 0, 7⟩⟩,
      ⟨.scalar {} .plain ['y'], ⟨10, 10, 0, 10⟩⟩, ⟨.mappingEnd, ⟨11, 11, 0, 11⟩⟩,
      ⟨.mappingEnd, ⟨12, 12, 1, 0⟩⟩] } := by
    decide +kernel
  rw [Document.ofString, hevents]
  rfl

theorem ofString_tagged : Document.ofString "!t y" = {
    root := some (.scalar {} (some ⟨['!', 't'], true⟩) .plain ['y']), size := 1 } := by
  have hevents : DocumentEvents.ofString "!t y" = {
      events := [⟨.scalar { tag := some ⟨['!', 't'], true⟩ } .plain ['y'], {}⟩] } := by
    decide +kernel
  rw [Document.ofString, hevents]
  rfl

theorem ofString_spec_tagged : Document.ofString "spec: {x: !t y}" = {
    root := some (.mapping {} none [(.scalar {} none .plain "spec".toList,
      .mapping ⟨6, 6, 0, 6⟩ none [(.scalar ⟨7, 7, 0, 7⟩ none .plain ['x'],
        .scalar ⟨10, 10, 0, 10⟩ (some ⟨['!', 't'], true⟩) .plain ['y'])])])
    size := 7 } := by
  have hevents : DocumentEvents.ofString "spec: {x: !t y}" = { events := [
      ⟨.mappingStart {}, {}⟩, ⟨.scalar {} .plain "spec".toList, {}⟩,
      ⟨.mappingStart {}, ⟨6, 6, 0, 6⟩⟩, ⟨.scalar {} .plain ['x'], ⟨7, 7, 0, 7⟩⟩,
      ⟨.scalar { tag := some ⟨['!', 't'], true⟩ } .plain ['y'], ⟨10, 10, 0, 10⟩⟩,
      ⟨.mappingEnd, ⟨14, 14, 0, 14⟩⟩, ⟨.mappingEnd, ⟨15, 15, 1, 0⟩⟩] } := by
    decide +kernel
  rw [Document.ofString, hevents]
  rfl

/-- A text under an unknown key of the specification is ignored. -/
theorem read_added_at_text :
    read "spec: {}" = .ok {} ∧ "x" ∉ (Part.spec .whole).fields ∧
      (Document.ofString "y").dataWithin .value (Part.spec .whole).room = .ok (.string "y") ∧
      (Part.spec .whole).Adds "x" (.ofString "spec: {}") (.ofString "y")
        (.ofString "spec: {x: y}") ∧
      read "spec: {x: y}" = .ok {} := by
  have hread : read "spec: {}" = .ok {} := by
    rw [read, readAny, ofString_spec]
    rfl
  have hvalue : (Document.ofString "y").dataWithin .value (Part.spec .whole).room =
      .ok (.string "y") := by
    rw [ofString_text, Document.dataWithin, Document.decode_of_root rfl rfl rfl,
      Document.untyped_eq]
    rfl
  have hadds : (Part.spec .whole).Adds "x" (.ofString "spec: {}") (.ofString "y")
      (.ofString "spec: {x: y}") := by
    rw [ofString_spec, ofString_text, ofString_spec_text]
    exact adds_of_roots rfl rfl rfl (by decide) rfl rfl
  have htag : ¬(Untyped.string "y").HoldsTag := Untyped.IsLeaf.not_holdsTag trivial
  exact ⟨hread, by decide, hvalue, hadds,
    (read_added hread (by decide) hvalue hadds).1 (.inr htag)⟩

/-- The same text with a tag is read where it stands alone, but refused in the specification. -/
theorem read_added_refuses_tag :
    ¬ ∀ part manifest value manifest' text m data, read manifest = .ok m →
      text ∉ Part.fields part →
      (Document.ofString value).dataWithin .value part.room = .ok data →
      part.Adds text (.ofString manifest) (.ofString value) (.ofString manifest') →
      read manifest' = .ok m := by
  intro hclaim
  have hread : read "spec: {}" = .ok {} := by
    rw [read, readAny, ofString_spec]
    rfl
  have hvalue : (Document.ofString "!t y").dataWithin .value (Part.spec .whole).room =
      .ok (.tagged "t" (.string "y")) := by
    rw [ofString_tagged, Document.dataWithin, Document.decode_of_root rfl rfl rfl,
      Document.untyped_eq]
    rfl
  have hadds : (Part.spec .whole).Adds "x" (.ofString "spec: {}") (.ofString "!t y")
      (.ofString "spec: {x: !t y}") := by
    rw [ofString_spec, ofString_tagged, ofString_spec_tagged]
    exact adds_of_roots rfl rfl rfl (by decide) rfl rfl
  have hrefused : (read "spec: {x: !t y}").toOption.isNone = true := by decide +kernel
  rw [hclaim _ _ _ _ _ _ _ hread (by decide) hvalue hadds] at hrefused
  nomatch hrefused

end Monitoring

end CollectorTemplate
