/-
Manifests read back.

A record is written as those of its fields that are set, in their order, and each field that is
written is read into its own place.

* `Fills` : entries that fill a record, put together field by field;
* `MonitoringSpec.gives` : the specification, from the types it is made of;
* `Document.fillRecord_of_represents` : the records that are read without becoming data first;
* `Monitoring.read_write` : a written manifest is read as the same resource.
-/
import CollectorTemplate.Monitoring.Manifest
import CollectorTemplate.Proofs.Yaml.Data

namespace CollectorTemplate

/-! ### Records in data -/

/-- A tree that is read as a value. -/
structure Tree.Gives {α : Type} (tree : Tree) (depth : Nat) (read : Untyped → Except Complaint α)
    (value : α) : Prop where
  readable : tree.Readable
  depth_le : tree.depth ≤ depth
  read : read tree.data = .ok value

theorem Tree.Gives.optional {α : Type} {tree : Tree} {depth : Nat}
    {read : Untyped → Except Complaint α} {value : α} (h : tree.Gives depth read value)
    (hnull : tree.data ≠ .null) : tree.data.optional read = .ok (some value) := by
  unfold Untyped.optional
  split
  · exact absurd ‹_› hnull
  · rw [h.read]
    rfl

theorem Tree.entriesDepth_le {entries : List (String × Tree)} {depth : Nat}
    (h : ∀ entry ∈ entries, entry.2.depth ≤ depth) : Tree.entriesDepth entries ≤ depth := by
  induction entries with
  | nil => exact Nat.zero_le _
  | cons entry entries ih =>
    obtain ⟨hentry, hentries⟩ := List.forall_mem_cons.mp h
    exact Nat.max_le.mpr ⟨hentry, ih hentries⟩

/-- Entries for fields of these names, in their order, that take a record into another. -/
structure Fills {α : Type} (step : α → String → Untyped → Except Complaint α) (names : List String)
    (depth : Nat) (entries : List (String × Tree)) (record record' : α) : Prop where
  keys : (Entries.keys entries).Sublist names
  values : ∀ entry ∈ entries, entry.2.Readable ∧ entry.2.depth ≤ depth
  filled : entries.foldlM (fun record entry => step record entry.1 entry.2.data) record =
    .ok record'

namespace Fills

variable {α β : Type} {step : α → String → Untyped → Except Complaint α}
    {names names' : List String}
  {depth : Nat} {entries entries' : List (String × Tree)} {record record' record'' : α}
  {key : String}

theorem field (record' : α) {tree : Tree} (hreadable : tree.Readable) (hdepth : tree.depth ≤ depth)
    (hstep : step record key tree.data = .ok record') :
    Fills step [key] depth [(key, tree)] record record' where
  keys := .refl _
  values := List.forall_mem_singleton.mpr ⟨hreadable, hdepth⟩
  filled := by rw [List.foldlM_cons, hstep]; rfl

/-- A field is read into its place if it is set, and otherwise its place is as it was. -/
theorem option {tree : β → Tree} {value : Option β} (set : Option β → α)
    (hnone : set none = record)
    (hsome : ∀ v ∈ value, Fills step [key] depth [(key, tree v)] record (set (some v))) :
    Fills step [key] depth (optionEntry key tree value) record (set value) := by
  cases value with
  | none => exact hnone ▸ ⟨List.nil_sublist _, (fun _ h => nomatch h), rfl⟩
  | some v => exact hsome v rfl

theorem fieldUnless {tree : Tree} {absent : Bool} (habsent : absent = true → record = record')
    (hfield : absent = false → Fills step [key] depth [(key, tree)] record record') :
    Fills step [key] depth (if absent then [] else [(key, tree)]) record record' := by
  cases absent with
  | true => exact habsent rfl ▸ ⟨List.nil_sublist _, (fun _ h => nomatch h), rfl⟩
  | false => exact hfield rfl

theorem optionText {value : Option String} (set : Option String → α) (hnone : set none = record)
    (hstep : ∀ s, step record key (.string s) = .ok (set (some s))) :
    Fills step [key] depth (optionEntry key .string value) record (set value) :=
  option set hnone fun s _ => field _ (.string s) (Nat.zero_le _) (hstep s)

theorem optionGives {tree : β → Tree} {value : Option β} {read : Untyped → Except Complaint β}
    (set : Option β → α) (hnone : set none = record)
    (hgives : ∀ v ∈ value, (tree v).Gives depth read v) (hnull : ∀ v, (tree v).data ≠ .null)
    (hstep : ∀ data, step record key data = (data.optional read >>= fun v => .ok (set v))) :
    Fills step [key] depth (optionEntry key tree value) record (set value) :=
  option set hnone fun v hv =>
    have h := hgives v hv
    field _ h.readable h.depth_le (by rw [hstep, h.optional (hnull v)]; rfl)

theorem append (h : Fills step names depth entries record record')
    (h' : Fills step names' depth entries' record' record'') :
    Fills step (names ++ names') depth (entries ++ entries') record record'' where
  keys := by
    rw [Entries.keys, List.map_append]
    exact h.keys.append h'.keys
  values := List.forall_mem_append.mpr ⟨h.values, h'.values⟩
  filled := by
    rw [List.foldlM_append, h.filled]
    exact h'.filled

end Fills

theorem Untyped.recordEntries_data {α : Type} {fields : List String}
    {step : α → String → Untyped → Except Complaint α} {entries : List (String × Tree)}
    (hfields : ∀ key ∈ Entries.keys entries, key ∈ fields) (hkeys : (Entries.keys entries).Nodup)
    {seen : List String} (hseen : ∀ key ∈ Entries.keys entries, key ∉ seen) (record : α) :
    recordEntries fields step seen record (Tree.entriesData entries) =
      entries.foldlM (fun record entry => step record entry.1 entry.2.data) record := by
  induction entries generalizing seen record with
  | nil => rfl
  | cons entry entries ih =>
    obtain ⟨key, value⟩ := entry
    obtain ⟨hfield, hfields⟩ := List.forall_mem_cons.mp hfields
    obtain ⟨hnew, hseen⟩ := List.forall_mem_cons.mp hseen
    obtain ⟨hkey, hkeys⟩ := List.nodup_cons.mp hkeys
    have hfind : fields.find? (· == key) = some key := by
      cases hfound : fields.find? (· == key) with
      | none => simpa using List.find?_eq_none.mp hfound key hfield
      | some k => simpa using List.find?_some hfound
    have hseen' : ∀ k ∈ Entries.keys entries, k ∉ key :: seen := by
      intro k hk hmem
      rcases List.mem_cons.mp hmem with rfl | hmem
      · exact hkey hk
      · exact hseen k hk hmem
    have hcontains : seen.contains key = false := by simpa using hnew
    rw [Tree.entriesData, recordEntries, List.foldlM_cons]
    simp only [fieldOf, hfind, Yaml.ok_bind, hcontains]
    exact congrArg (step record key value.data >>= ·)
      (funext fun record => ih hfields hkeys hseen' record)

/-- A mapping of entries that fill a record is read as the record. -/
theorem Fills.gives {α : Type} {step : α → String → Untyped → Except Complaint α}
    {names fields : List String} {depth : Nat} {entries : List (String × Tree)} {blank value : α}
    {name : String} (h : Fills step names depth entries blank value) (hnames : names = fields)
    (hdistinct : fields.Nodup) :
    (Tree.mapping entries).Gives (depth + 1) (Untyped.record name fields blank step) value := by
  subst hnames
  exact {
    readable := .mapping (hdistinct.sublist h.keys) fun entry hentry => (h.values entry hentry).1
    depth_le := Nat.succ_le_succ
      (Tree.entriesDepth_le fun entry hentry => (h.values entry hentry).2)
    read := (Untyped.recordEntries_data (fun _ hkey => h.keys.subset hkey)
      (hdistinct.sublist h.keys) (fun _ _ => List.not_mem_nil) blank).trans h.filled }

/-! ### The specification -/

theorem MetricsStorage.gives (s : MetricsStorage) : s.tree.Gives 1 ofUntyped s :=
  Fills.gives ((Fills.optionText (mk · none) rfl fun _ => rfl).append
    (Fills.optionText (mk s.size ·) rfl fun _ => rfl)) rfl (by decide)

theorem MetricsResources.gives (r : MetricsResources) : r.tree.Gives 1 ofUntyped r :=
  Fills.gives ((((Fills.optionText (mk · none none none) rfl fun _ => rfl).append
    (Fills.optionText (mk r.cpuLimit · none none) rfl fun _ => rfl)).append
    (Fills.optionText (mk r.cpuLimit r.memoryLimit · none) rfl fun _ => rfl)).append
    (Fills.optionText (mk r.cpuLimit r.memoryLimit r.cpuRequest ·) rfl fun _ => rfl))
    rfl (by decide)

theorem TracesStorage.gives (s : TracesStorage) : s.tree.Gives 1 ofUntyped s :=
  Fills.gives ((((Fills.option (mk · none none none) rfl fun backend _ =>
      .field _ (.string _) (Nat.zero_le _) (by cases backend <;> rfl)).append
    (Fills.optionText (mk s.backend · none none) rfl fun _ => rfl)).append
    (Fills.optionText (mk s.backend s.size · none) rfl fun _ => rfl)).append
    (Fills.optionText (mk s.backend s.size s.secret ·) rfl fun _ => rfl))
    rfl (by decide)

theorem Traces.gives (t : Traces) : t.tree.Gives 2 ofUntyped t :=
  have hstorage := t.storage.gives
  Fills.gives ((Fills.field (mk t.storage none) hstorage.readable hstorage.depth_le
      (by rw [hstorage.read]; rfl)).append
    (Fills.optionText (mk t.storage ·) rfl fun _ => rfl)) rfl (by decide)

/-- What holds of the metrics of every manifest: the number of replicas has 32 bits with sign, and
the names of exporters differ. -/
structure Metrics.Valid (m : Metrics) : Prop where
  replicas : ∀ n ∈ m.replicas, Width.signed 32 n = true
  exporters : (Entries.keys m.exporters).Nodup

/-- The exporters are read into the order of their names. -/
theorem Metrics.exportersTree_gives {exporters : Sources} (h : (Entries.keys exporters).Nodup) :
    (exportersTree exporters).Gives 1 Untyped.table (Entries.ofList exporters) where
  readable := by
    refine .mapping ?_ fun entry hentry => ?_
    · rw [Entries.keys, List.map_map]
      exact h
    · obtain ⟨exporter, -, rfl⟩ := List.mem_map.mp hentry
      exact .string _
  depth_le := by
    refine Nat.succ_le_succ (Tree.entriesDepth_le fun entry hentry => ?_)
    obtain ⟨exporter, -, rfl⟩ := List.mem_map.mp hentry
    exact Nat.le_refl _
  read := by
    have hfold (read : List (String × String)) :
        (Tree.entriesData (exporters.map fun exporter => (exporter.1, .string exporter.2))).foldlM
          (fun read entry => do
            let key ← entry.1.text
            let value ← entry.2.text
            return Entries.insert key value read) read =
          .ok (exporters.foldl (fun read entry => Entries.insert entry.1 entry.2 read) read) := by
      clear h
      induction exporters generalizing read with
      | nil => rfl
      | cons exporter exporters ih => exact ih _
    exact hfold []

theorem Metrics.replicas_gives {n : Int} (h : Width.signed 32 n = true) {depth : Nat} :
    (Tree.integer n).Gives depth Untyped.int32 n where
  readable := .integer (Width.signed_of_le (by decide) h)
  depth_le := Nat.zero_le _
  read := by
    have hint : (Tree.integer n).data.int? = some n := by cases n <;> rfl
    rw [Untyped.int32, hint]
    exact if_pos h

/-- The metrics with their exporters in the order of their names. -/
def Metrics.ordered (m : Metrics) : Metrics := { m with exporters := Entries.ofList m.exporters }

/-- Metrics with the same fields, where exporters may come in any order. -/
def Metrics.Same (a b : Metrics) : Prop :=
  a.storage = b.storage ∧ a.resources = b.resources ∧ a.replicas = b.replicas ∧
    a.exporters.Perm b.exporters

theorem Metrics.same_ordered {m : Metrics} (h : m.Valid) : m.ordered.Same m :=
  ⟨rfl, rfl, rfl, Entries.perm_ofList h.exporters⟩

theorem Metrics.gives {m : Metrics} (h : m.Valid) : m.tree.Gives 2 ofUntyped m.ordered :=
  have hreplicas (n : Int) : (Tree.integer n).data ≠ .null := by cases n <;> nofun
  have hexporters := exportersTree_gives h.exporters
  Fills.gives ((((Fills.optionGives (mk · none none []) rfl
      (fun storage _ => storage.gives) nofun fun _ => rfl).append
    (Fills.optionGives (mk m.storage · none []) rfl
      (fun resources _ => resources.gives) nofun fun _ => rfl)).append
    (Fills.optionGives (mk m.storage m.resources · []) rfl
      (fun n hn => replicas_gives (h.replicas n hn)) hreplicas fun _ => rfl)).append
    (Fills.fieldUnless (fun hempty => by rw [ordered, List.isEmpty_iff.mp hempty]; rfl)
      fun _ => .field _ hexporters.readable hexporters.depth_le (by rw [hexporters.read]; rfl)))
    rfl (by decide)

theorem MonitoringSpec.gives {s : MonitoringSpec} (h : ∀ metrics ∈ s.metrics, metrics.Valid) :
    s.tree.Gives 3 ofUntyped { s with metrics := s.metrics.map Metrics.ordered } :=
  Fills.gives (.append (.field (mk s.space none none) (.string s.space) (Nat.zero_le _) rfl)
    (.append
      (Fills.option (fun metrics => mk s.space (metrics.map Metrics.ordered) none) rfl
        fun metrics hmetrics =>
          have hgives := Metrics.gives (h metrics hmetrics)
          .field _ hgives.readable hgives.depth_le (by rw [hgives.optional nofun]; rfl))
      (Fills.optionGives (mk s.space (s.metrics.map Metrics.ordered) ·) rfl
        (fun traces _ => traces.gives) nofun fun _ => rfl)))
    rfl (by decide)

/-! ### Records in documents -/

namespace Yaml.Document

variable {α : Type} (d : Document)

theorem text_scalar (expected : String) (path : Path) (place : Mark) (tag : Option TagText)
    (style : Style) (text : List Char) :
    d.text expected path (.scalar place tag style text) = pure text := rfl

theorem blame_ok {work : ExceptT Complaint Reads α} {value : α}
    (h : work.run = pure (.ok value)) (place : Mark) (path : Path) :
    blame place path work = pure value := by
  rw [blame, h]
  rfl

/-- Where each entry is read into its own place, all entries are read one after the other. -/
theorem fillRecord_of_represents {fields : List String}
    {read : α → String → Path → Node → ExceptT Complaint Reads α} {step : α → String × Tree → α}
    {nodes : List (Node × Node)} {entries : List (String × Tree)}
    (h : Node.RepresentsEntries nodes entries)
    (hfields : ∀ key ∈ Entries.keys entries, key ∈ fields) (hkeys : (Entries.keys entries).Nodup)
    (hread : ∀ entry ∈ entries, ∀ record path node, node.Represents entry.2 →
      (read record entry.1 path node).run = pure (.ok (step record entry)))
    (place : Mark) (path : Path) {seen : List String}
    (hseen : ∀ key ∈ Entries.keys entries, key ∉ seen) (record : α) :
    d.fillRecord fields read place path seen record nodes = pure (entries.foldl step record) := by
  induction entries generalizing nodes seen record with
  | nil => cases h; rfl
  | cons entry entries ih =>
    obtain ⟨key, value⟩ := entry
    obtain ⟨hfield, hfields⟩ := List.forall_mem_cons.mp hfields
    obtain ⟨hkey, hkeys⟩ := List.nodup_cons.mp hkeys
    obtain ⟨hvalue, hvalues⟩ := List.forall_mem_cons.mp hread
    obtain ⟨hnew, hseen⟩ := List.forall_mem_cons.mp hseen
    cases h with
    | cons keyPlace head tail =>
      have hseen' : ∀ k ∈ Entries.keys entries, k ∉ key :: seen := by
        intro k hk hmem
        rcases List.mem_cons.mp hmem with rfl | hmem
        · exact hkey hk
        · exact hseen k hk hmem
      have hblame (path' : Path) := blame_ok (hvalue record path' _ head) place path
      have hcontains : fields.contains key = true := by simpa using hfield
      have hfresh : seen.contains key = false := by simpa using hnew
      rw [fillRecord, text_scalar, pure_bind, String.ofList_toList]
      simp only [hcontains, hfresh, if_true, Bool.false_eq_true, if_false, pure_bind, hblame]
      exact ih tail hfields hkeys hvalues hseen' _

theorem recordEntries_mapping (name : String) {depth : Nat} (hdepth : 0 < depth) (path : Path)
    (place : Mark) (nodes : List (Node × Node)) :
    d.recordEntries name depth path (.mapping place none nodes) = pure (place, path, nodes) := by
  obtain ⟨depth, rfl⟩ := Nat.exists_eq_add_one.mpr hdepth
  rfl

/-- A mapping whose entries are each read into its own place is read as the record. -/
theorem record_of_represents {fields : List String}
    {read : α → String → Path → Node → ExceptT Complaint Reads α} (step : α → String × Tree → α)
    {entries : List (String × Tree)} (hkeys : (Entries.keys entries).Sublist fields)
    (hdistinct : fields.Nodup)
    (hread : ∀ entry ∈ entries, ∀ record path node, node.Represents entry.2 →
      (read record entry.1 path node).run = pure (.ok (step record entry)))
    {depth : Nat} (hdepth : 0 < depth) {node : Node} (h : node.Represents (.mapping entries))
    (name : String) (blank : α) (path : Path) :
    d.record name fields blank read depth path node = pure (entries.foldl step blank) := by
  cases h with
  | leaf place h => nomatch h
  | mapping place h =>
    rw [record, recordEntries_mapping d name hdepth]
    exact d.fillRecord_of_represents h (fun _ hkey => hkeys.subset hkey)
      (hdistinct.sublist hkeys) hread place path (fun _ _ => List.not_mem_nil) blank

theorem looseEntries_of_represents {depth : Nat} {nodes : List (Node × Node)}
    {entries : List (String × Tree)}
    (hreadable : ∀ entry ∈ entries, entry.2.Readable ∧ entry.2.depth ≤ depth)
    (h : Node.RepresentsEntries nodes entries) (path : Path) :
    d.looseEntries depth path nodes = pure (Tree.entriesData entries) := by
  induction entries generalizing nodes with
  | nil => cases h; rfl
  | cons entry entries ih =>
    obtain ⟨key, value⟩ := entry
    obtain ⟨⟨hvalue, hdepth⟩, hvalues⟩ := List.forall_mem_cons.mp hreadable
    cases h with
    | cons keyPlace head tail =>
      rw [looseEntries, text_scalar, pure_bind, untyped_of_represents d .buffer hvalue hdepth head,
        pure_bind, ih hvalues tail, pure_bind, String.ofList_toList]
      rfl

/-- A record that becomes data first is read as what its data give. -/
theorem loose_of_represents {entries : List (String × Tree)} {bound depth : Nat}
    {read : Untyped → Except Complaint α} {value : α}
    (hgives : (Tree.mapping entries).Gives bound read value) (hbound : bound ≤ depth) {node : Node}
    (h : node.Represents (.mapping entries)) (name : String) (path : Path) :
    d.loose name read depth path node = pure value := by
  cases h with
  | leaf place h => nomatch h
  | mapping place h =>
    cases hgives.readable with
    | mapping hkeys hvalues =>
      have hdepth : Tree.entriesDepth entries + 1 ≤ depth := Nat.le_trans hgives.depth_le hbound
      have hread (entry : String × Tree) (hentry : entry ∈ entries) :
          entry.2.Readable ∧ entry.2.depth ≤ depth - 1 :=
        ⟨hvalues entry hentry, Nat.le_trans (Tree.depth_le_entriesDepth hentry) (by omega)⟩
      rw [loose, recordEntries_mapping d name (by omega), pure_bind]
      simp only [looseEntries_of_represents d hread h, pure_bind]
      have hrun : (ExceptT.mk (pure (read (.mapping (Tree.entriesData entries)))) :
          ExceptT Complaint Reads α).run = pure (.ok value) := congrArg pure hgives.read
      exact blame_ok hrun place path

theorem string_of_represents {s : String} {node : Node} (h : node.Represents (.string s))
    (path : Path) : d.string path node = pure s := by
  cases h with
  | leaf place h =>
    obtain ⟨rfl, rfl⟩ := Prod.mk.inj (Option.some.inj h)
    rw [string, text_scalar, pure_bind, String.ofList_toList]

/-- A written string does not stand for nothing. -/
theorem isNothing_string (place : Mark) (text : List Char) :
    isNothing (.scalar place none (Scalar.styleOf text) text) = .ok false := by
  cases hstyle : Scalar.styleOf text with
  | plain =>
    have hmeaning := Scalar.resolve_of_styleOf hstyle
    rw [Scalar.resolve] at hmeaning
    split at hmeaning
    · exact Scalar.Meaning.noConfusion hmeaning
    · rename_i hnothing
      exact congrArg Except.ok (Bool.eq_false_iff.mpr hnothing)
  | _ => rfl

theorem optionalText_of_represents {s : String} {node : Node} (h : node.Represents (.string s))
    (path : Path) : (d.optionalText path node).run = pure (.ok (some s)) := by
  have hstring := d.string_of_represents h
  cases h with
  | leaf place h =>
    obtain ⟨rfl, rfl⟩ := Prod.mk.inj (Option.some.inj h)
    have hnothing : (ExceptT.mk (pure (isNothing (.scalar place none (Scalar.styleOf s.toList)
        s.toList))) : ExceptT Complaint Reads Bool) = pure false :=
      congrArg (fun answer => ExceptT.mk (pure answer)) (isNothing_string place s.toList)
    simp [optionalText, target, hnothing, hstring]

end Yaml.Document

open Yaml (Document Node Path)

theorem ObjectMeta.ofNode_of_represents (d : Document) (m : ObjectMeta) {depth : Nat}
    (hdepth : 0 < depth) {node : Node} (h : node.Represents m.tree) (path : Path) :
    ofNode d depth path node = pure m := by
  obtain ⟨name, space⟩ := m
  have hkeys : (Entries.keys (("name", Tree.string name) ::
      optionEntry "namespace" .string space)).Sublist ["name", "namespace"] := by
    cases space with
    | none => exact (List.nil_sublist _).cons_cons _
    | some s => exact .refl _
  let step (r : ObjectMeta) (entry : String × Tree) : ObjectMeta :=
    if entry.1 = "name" then { r with name } else { r with space }
  refine (d.record_of_represents step hkeys (by decide) (fun entry hentry => ?_)
    hdepth h "ObjectMeta" {} path).trans ?_
  · rcases List.mem_cons.mp hentry with rfl | hentry
    · intro record path node hnode
      simp [step, d.string_of_represents hnode]
    · cases space with
      | none => nomatch hentry
      | some s =>
        obtain rfl := List.mem_singleton.mp hentry
        intro record path node hnode
        simp [step, d.optionalText_of_represents hnode]
        rfl
  · cases space <;> rfl

/-! ### The manifest -/

namespace Monitoring

/-- What holds of the resource of every manifest. -/
def Valid (m : Monitoring) : Prop := ∀ metrics ∈ m.spec.metrics, metrics.Valid

/-- The resource with its exporters in the order of their names. -/
def ordered (m : Monitoring) : Monitoring :=
  { m with spec := { m.spec with metrics := m.spec.metrics.map Metrics.ordered } }

theorem ofNode_of_represents (d : Document) {m : Monitoring} (hvalid : m.Valid) {depth : Nat}
    (hdepth : 4 ≤ depth) {node : Node} (h : node.Represents m.tree) (path : Path) :
    ofNode d depth path node = pure m.ordered := by
  have hspec := MonitoringSpec.gives hvalid
  let step (r : Monitoring) (entry : String × Tree) : Monitoring :=
    if entry.1 = "apiVersion" then { r with apiVersion := m.apiVersion }
    else if entry.1 = "kind" then { r with kind := m.kind }
    else if entry.1 = "metadata" then { r with metadata := m.metadata }
    else { r with spec := m.ordered.spec }
  refine (d.record_of_represents step ?_ (by decide) (fun entry hentry => ?_) (by omega) h
    "Monitoring" {} path).trans rfl
  · exact .refl _
  simp only [List.mem_cons, List.not_mem_nil, or_false] at hentry
  rcases hentry with rfl | rfl | rfl | rfl <;> intro record path node hnode
  · simp [step, d.string_of_represents hnode]
  · simp [step, d.string_of_represents hnode]
  · have hbound : 0 < depth - 1 := by omega
    simp [step, ObjectMeta.ofNode_of_represents d m.metadata hbound hnode]
  · have hbound : 3 ≤ depth - 1 := by omega
    simp [step, d.loose_of_represents hspec hbound hnode]
    rfl

theorem readAny_write {m : Monitoring} (hvalid : m.Valid) :
    readAny (Yaml.write m.tree) = .ok m.ordered := by
  obtain ⟨root, size, hroot, hdocument⟩ := Document.ofString_write m.tree
  have hread := ofNode_of_represents { root := some root, size := size } hvalid
    (show 4 ≤ Yaml.depthLimit by decide) hroot .root
  rw [readAny, hdocument]
  simp only [Document.decode, hread]
  rfl

/-- Resources with the same fields, where exporters may come in any order. -/
def Same (a b : Monitoring) : Prop :=
  a.apiVersion = b.apiVersion ∧ a.kind = b.kind ∧ a.metadata = b.metadata ∧
    a.spec.space = b.spec.space ∧ Option.Rel Metrics.Same a.spec.metrics b.spec.metrics ∧
    a.spec.traces = b.spec.traces

/-- A manifest that is written for a resource, whose kind may be left out, is read as the same
resource. -/
theorem read_write {m : Monitoring} (hkind : m.kind = "" ∨ m.kind = expectedKind)
    (hvalid : m.Valid) : ∃ m', read (Yaml.write m.tree) = .ok m' ∧ m'.Same m := by
  refine ⟨m.ordered, ?_, rfl, rfl, rfl, rfl, ?_, rfl⟩
  · have hnot : ¬(m.ordered.kind ≠ "" ∧ m.ordered.kind ≠ expectedKind) := fun h =>
      hkind.elim h.1 h.2
    rw [read, readAny_write hvalid]
    exact if_neg hnot
  · change Option.Rel Metrics.Same (m.spec.metrics.map Metrics.ordered) m.spec.metrics
    cases hmetrics : m.spec.metrics with
    | none => exact .none
    | some metrics => exact .some (Metrics.same_ordered (hvalid metrics hmetrics))

/-- A resource of no kind whose options are set to nothing, to blanks and to the least number, with
exporters that are not in order. -/
theorem read_write_at_blank :
    let metrics : Metrics := {
      storage := some {}, resources := some { cpuLimit := some "" }, replicas := some (-2147483648)
      exporters := [("otlp", "null"), ("", " "), ("debug", "- 1\n")] }
    let m : Monitoring := { spec := {
      space := "~", metrics := some metrics, traces := some { sampleRatio := some " " } } }
    (m.kind = "" ∨ m.kind = expectedKind) ∧ m.Valid ∧
      ∃ m', read (Yaml.write m.tree) = .ok m' ∧ m'.Same m := by
  intro metrics m
  have hmetrics : metrics.Valid :=
    ⟨fun n hn => Option.some.inj hn ▸ (by decide), by decide⟩
  have hvalid : m.Valid := fun metrics' h => Option.some.inj h ▸ hmetrics
  exact ⟨.inl rfl, hvalid, read_write (.inl rfl) hvalid⟩

end Monitoring

end CollectorTemplate
