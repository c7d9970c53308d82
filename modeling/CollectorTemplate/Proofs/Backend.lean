/-
The backend of the traces in a manifest.

There are two readers of the names of backends.  A manifest is read by names exactly as they are
written, and a name on its own is read in any case.  So a manifest with a string for its backend is
read exactly where the string is a name and the manifest would be read with another name in its
place; then the string on its own is read as the same backend.  In the other direction this fails:
`"PV"` on its own is a backend, and in a manifest it is not.

* `TracesBackend.Lowers` : characters and what may become of them in lower case;
* `TracesBackend.parse_eq_ok_iff` : a name on its own is read by its lower case;
* `Monitoring.Rewords` : manifests that are the same but for the backend;
* `Monitoring.read_backend_iff` : which of them are read, and as what.
-/
import CollectorTemplate.Proofs.Unknown
import CollectorTemplate.Proofs.Yaml.Reworded

namespace CollectorTemplate

/-! ### Names on their own -/

namespace TracesBackend

/-- The characters that names are made of. -/
def letters : List Char := all.flatMap (·.name.toList)

/-- Characters and what may become of them in lower case.  Of ASCII each becomes one character.
Beyond it a character may become several, and which ones may depend on its neighbours; but something
is left of it that is in no name: a character beyond ASCII, or the letter k of the Kelvin sign. -/
inductive Lowers : List Char → List Char → Prop
  | nil : Lowers [] []
  | ascii {c : Char} {rest lowered : List Char} (hc : c.toNat < 128) (h : Lowers rest lowered) :
      Lowers (c :: rest) (c.toLower :: lowered)
  | other {c x : Char} {piece rest lowered : List Char} (hc : 128 ≤ c.toNat) (hmem : x ∈ piece)
      (hx : x ∉ letters) (h : Lowers rest lowered) : Lowers (c :: rest) (piece ++ lowered)

theorem ofName?_eq_some_iff {text : String} {backend : TracesBackend} :
    ofName? text = some backend ↔ backend.name = text := by
  constructor
  · intro h
    simpa using List.find?_some h
  · rintro rfl
    exact ofName?_name backend

/-- A name on its own is read with the letters of ASCII in lower case. -/
theorem parse_eq_ok_iff_map {text : String} {backend : TracesBackend} :
    parse text = .ok backend ↔ text.toList.map Char.toLower = backend.name.toList := by
  have hname : parse text = .ok backend ↔
      ofName? (String.ofList (text.toList.map Char.toLower)) = some backend := by
    unfold parse
    cases ofName? (String.ofList (text.toList.map Char.toLower)) with
    | none => simp
    | some found => simp
  rw [hname, ofName?_eq_some_iff, eq_comm, ← String.toList_inj, String.toList_ofList]

theorem toLower_of_not_ascii {c : Char} (h : 128 ≤ c.toNat) : c.toLower = c := by
  have hnone : ¬(c.val ≥ 'A'.val ∧ c.val ≤ 'Z'.val) := by
    rintro ⟨-, hle⟩
    have hnat : c.toNat ≤ 90 := hle
    omega
  exact dif_neg hnone

theorem not_mem_letters {c : Char} (h : 128 ≤ c.toNat) : c ∉ letters := by
  have hascii : (letters.all fun c => decide (c.toNat < 128)) = true := by decide
  intro hmem
  have hc := of_decide_eq_true (List.all_eq_true.mp hascii c hmem)
  omega

/-- What is beyond ASCII may stay as it is. -/
theorem Lowers.of_map (text : List Char) : Lowers text (text.map Char.toLower) := by
  induction text with
  | nil => exact .nil
  | cons c rest ih =>
    rcases Nat.lt_or_ge c.toNat 128 with hc | hc
    · exact .ascii hc ih
    · rw [List.map_cons, toLower_of_not_ascii hc]
      change Lowers (c :: rest) ([c] ++ rest.map Char.toLower)
      exact .other hc (List.mem_singleton_self c) (not_mem_letters hc) ih

/-- What is made of the letters of names is the lower case of a text exactly where it is that of its
letters of ASCII. -/
theorem Lowers.eq_iff {text lowered : List Char} (h : Lowers text lowered) {name : List Char}
    (hname : ∀ c ∈ name, c ∈ letters) : lowered = name ↔ text.map Char.toLower = name := by
  induction h generalizing name with
  | nil => exact Iff.rfl
  | @ascii c rest lowered _ _ ih =>
    cases name with
    | nil => simp
    | cons x name =>
      rw [List.map_cons, List.cons.injEq, List.cons.injEq,
        ih fun c hc => hname c (List.mem_cons_of_mem _ hc)]
  | @other c x piece rest lowered hc hmem hx _ _ =>
    -- Both hold a character that no name has: what is left of `c`, and `c` itself.
    refine iff_of_false ?_ ?_
    · rintro rfl
      exact hx (hname x (List.mem_append_left _ hmem))
    · rintro rfl
      refine not_mem_letters hc (hname c ?_)
      rw [List.map_cons, toLower_of_not_ascii hc]
      exact List.mem_cons_self

/-- A name on its own is read exactly where its lower case is the name. -/
theorem parse_eq_ok_iff {text : String} {lowered : List Char} (h : Lowers text.toList lowered)
    {backend : TracesBackend} : parse text = .ok backend ↔ lowered = backend.name.toList := by
  have hbackend : backend ∈ all := by cases backend <;> decide
  rw [parse_eq_ok_iff_map, h.eq_iff fun c hc => List.mem_flatMap.mpr ⟨backend, hbackend, hc⟩]

theorem parse_name (backend : TracesBackend) : parse backend.name = .ok backend := by
  cases backend <;> rfl

end TracesBackend

/-! ### Resources with another backend -/

def TracesStorage.withBackend (backend : TracesBackend) (storage : TracesStorage) : TracesStorage :=
  { storage with backend := some backend }

namespace Traces

def backend? (traces : Traces) : Option TracesBackend := traces.storage.backend

def withBackend (backend : TracesBackend) (traces : Traces) : Traces :=
  { traces with storage := traces.storage.withBackend backend }

end Traces

namespace MonitoringSpec

def backend? (spec : MonitoringSpec) : Option TracesBackend := spec.traces.bind (·.backend?)

def withBackend (backend : TracesBackend) (spec : MonitoringSpec) : MonitoringSpec :=
  { spec with traces := spec.traces.map (·.withBackend backend) }

end MonitoringSpec

namespace Monitoring

/-- The backend of the traces of a resource, if there are traces and they have one. -/
def backend? (resource : Monitoring) : Option TracesBackend := resource.spec.backend?

/-- The resource with a backend for its traces, if it has traces. -/
def withBackend (backend : TracesBackend) (resource : Monitoring) : Monitoring :=
  { resource with spec := resource.spec.withBackend backend }

/-- Another backend makes no difference once the old one is there again. -/
theorem withBackend_withBackend {resource : Monitoring} {backend : TracesBackend}
    (h : resource.backend? = some backend) (backend' : TracesBackend) :
    (resource.withBackend backend').withBackend backend = resource := by
  obtain ⟨apiVersion, kind, metadata, space, metrics, traces⟩ := resource
  obtain ⟨traces, rfl, hbackend⟩ := Option.bind_eq_some_iff.mp h
  obtain ⟨⟨_, size, secret, retention⟩, sampleRatio⟩ := traces
  obtain rfl : _ = some backend := hbackend
  rfl

end Monitoring

/-- The backend of the first record has a name, and the second record is the first one with another
backend.  `backend?` is the backend of a record, and `withBackend` sets it. -/
def Rebacked {α : Type} (backend? : α → Option TracesBackend) (withBackend : TracesBackend → α → α)
    (name : String) (backend' : TracesBackend) (record record' : α) : Prop :=
  (∃ backend, backend.name = name ∧ backend? record = some backend) ∧
    record' = withBackend backend' record

/-! ### The specification in data -/

namespace Monitoring

/-! The fields that lead to the backend. -/

theorem traces_mem : "traces" ∈ SpecPart.whole.fields := by decide

theorem storage_mem : "storage" ∈ SpecPart.traces.fields := by decide

theorem backend_mem : "backend" ∈ SpecPart.tracesStorage.fields := by decide

def tracesField : RecordField := ⟨SpecPart.whole.fields, "traces", traces_mem⟩

def storageField : RecordField := ⟨SpecPart.traces.fields, "storage", storage_mem⟩

def backendField : RecordField := ⟨SpecPart.tracesStorage.fields, "backend", backend_mem⟩

end Monitoring

open Monitoring (tracesField storageField backendField)

section

variable {s : String} {backend' : TracesBackend} {data data' : Untyped}

/-- A text is a backend only if it is the name of one. -/
theorem TracesBackend.ofUntyped_string_iff {backend : TracesBackend} :
    ofUntyped (.string s) = .ok backend ↔ backend.name = s := by
  rw [← ofName?_eq_some_iff, ofUntyped, ofVariant]
  cases ofName? s with
  | none => simp
  | some found => simp

/-- An option is read in step where what is set is. -/
theorem Untyped.leads_optional {α β : Type} {read : Untyped → Except Complaint α}
    {read' : Untyped → Except Complaint β} {rel : α → β → Prop} (hdata : data ≠ .null)
    (hdata' : data' ≠ .null) (h : Leads rel (read data) (read' data')) :
    Leads (fun a b => ∃ value value', a = some value ∧ b = some value' ∧ rel value value')
      (data.optional read) (data'.optional read') := by
  rw [optional_of_ne_null hdata, optional_of_ne_null hdata']
  exact h.bind fun value value' hvalue => .pure ⟨value, value', rfl, rfl, hvalue⟩

/-- Data that are texts, two given ones. -/
def Untyped.Reworded (s s' : String) (data data' : Untyped) : Prop :=
  data = .string s ∧ data' = .string s'

/-! Each record takes up the backend of the one in it. -/

theorem TracesStorage.leads_ofUntyped
    (h : Untyped.Under backendField (Untyped.Reworded s backend'.name) data data') :
    Untyped.Leads (Rebacked backend withBackend s backend') (ofUntyped data) (ofUntyped data') := by
  refine Untyped.leads_record_under ?_ ?_ (by decide) h
  · rintro record _ name data hne ⟨hbackend, rfl⟩
    split
    · exact absurd rfl hne
    -- Whatever another field is set to, the backends stay where they are.
    · exact .taken fun _ => ⟨hbackend, rfl⟩
    · exact .taken fun _ => ⟨hbackend, rfl⟩
    · exact .taken fun _ => ⟨hbackend, rfl⟩
    · exact .pure ⟨hbackend, rfl⟩
  · rintro record _ _ ⟨rfl, rfl⟩
    have hbackend : Untyped.Leads (fun a b => a.name = s ∧ b = backend')
        (TracesBackend.ofUntyped (.string s)) (TracesBackend.ofUntyped (.string backend'.name)) :=
      fun backend h => ⟨backend', TracesBackend.ofUntyped_string_iff.mpr rfl,
        TracesBackend.ofUntyped_string_iff.mp h, rfl⟩
    have hnull (text : String) : Untyped.string text ≠ .null := nofun
    refine (Untyped.leads_optional (hnull s) (hnull _) hbackend).bind ?_
    rintro _ _ ⟨backend, _, rfl, rfl, hname, rfl⟩
    exact .pure ⟨⟨backend, hname, rfl⟩, rfl⟩

theorem Traces.leads_ofUntyped
    (h : Untyped.Under storageField (Untyped.Under backendField
      (Untyped.Reworded s backend'.name)) data data') :
    Untyped.Leads (Rebacked backend? withBackend s backend') (ofUntyped data)
      (ofUntyped data') := by
  refine Untyped.leads_record_under ?_ ?_ (by decide) h
  · rintro record _ name data hne ⟨hbackend, rfl⟩
    split
    · exact absurd rfl hne
    · exact .taken fun _ => ⟨hbackend, rfl⟩
    · exact .pure ⟨hbackend, rfl⟩
  · intro record data data' h
    refine (TracesStorage.leads_ofUntyped h).bind ?_
    rintro storage _ ⟨hbackend, rfl⟩
    exact .pure ⟨hbackend, rfl⟩

theorem MonitoringSpec.leads_ofUntyped
    (h : Untyped.Under tracesField (Untyped.Under storageField (Untyped.Under backendField
      (Untyped.Reworded s backend'.name))) data data') :
    Untyped.Leads (Rebacked backend? withBackend s backend') (ofUntyped data)
      (ofUntyped data') := by
  refine Untyped.leads_record_under ?_ ?_ (by decide) h
  · rintro record _ name data hne ⟨hbackend, rfl⟩
    split
    · exact .taken fun _ => ⟨hbackend, rfl⟩
    · exact .taken fun _ => ⟨hbackend, rfl⟩
    · exact absurd rfl hne
    · exact .pure ⟨hbackend, rfl⟩
  · intro record data data' h
    obtain ⟨hdata, hdata'⟩ := h.not_null
    refine (Untyped.leads_optional hdata hdata' (Traces.leads_ofUntyped h)).bind ?_
    rintro _ _ ⟨traces, _, rfl, rfl, hbackend, rfl⟩
    exact .pure ⟨hbackend, rfl⟩

end

/-! ### Manifests with another backend -/

open Yaml (Document Node Path Mark)
open Yaml.Document (Leads Matches)

namespace Yaml.Node

/-- Nodes that are a given string in quotes. -/
inductive Quotes (s : String) : Node → Prop
  | single {place : Mark} : Quotes s (.scalar place none .singleQuoted s.toList)
  | double {place : Mark} : Quotes s (.scalar place none .doubleQuoted s.toList)

/-- A string in quotes is read as a text. -/
theorem Quotes.untyped {s : String} {node : Node} (h : node.Quotes s) (d : Document) (depth : Nat)
    (path : Path) : d.untyped .buffer depth path node = Pure.pure (.string s) := by
  have hdata : node.data? = some (.string (String.ofList s.toList)) := by cases h <;> rfl
  rw [String.ofList_toList] at hdata
  exact Document.untyped_of_data? (by cases h <;> rfl) hdata d depth path

end Yaml.Node

namespace Monitoring

/-- Nodes of manifests that are the same but for the backend of the traces, which is the string `s`
in quotes, or `s'`. -/
def BackendDiffers (d : Document) (same : Nat → Nat → Prop) (s s' : String) : Node → Node → Prop :=
  Node.Under same (d.writes "spec") <| Node.Under same (d.writes tracesField.name) <|
    Node.UnderField d same storageField <| Node.UnderField d same backendField
      fun node node' => node.Quotes s ∧ node'.Quotes s'

/-- Manifests that are the same but for the backend of the traces, which is the string `s` in quotes
in the first one, and `s'` in the second. -/
inductive Rewords (s s' : String) (d d' : Document) : Prop
  | mk {same : Nat → Nat → Prop} {root root' : Node} (hroot : d.root = some root)
      (hroot' : d'.root = some root') (hmatches : Matches same d d')
      (hdiffers : BackendDiffers d same s s' root root') (hsize : d'.size = d.size)
      (htail : d'.tail = d.tail) (hmore : d'.more = d.more)

/-- Which of the manifests comes first does not matter. -/
theorem Rewords.symm {s s' : String} {d d' : Document} (h : Rewords s s' d d') :
    Rewords s' s d' d := by
  obtain ⟨hroot, hroot', hmatches, hdiffers, hsize, htail, hmore⟩ := h
  refine .mk hroot' hroot hmatches.symm ?_ hsize.symm htail.symm hmore.symm
  refine hdiffers.symm (fun _ _ h => Document.writes_of_alike hmatches h _) fun _ _ h => ?_
  refine h.symm (fun _ _ h => Document.writes_of_alike hmatches h _) fun _ _ h => ?_
  exact h.symm hmatches fun _ _ h => h.symm hmatches fun _ _ h => h.symm

section

variable {d d' : Document} {same : Nat → Nat → Prop} {more : Nat} {s : String}
  {backend' : TracesBackend} {node node' : Node}

/-- A manifest is read as before with another backend. -/
theorem leads_ofNode_differs (hmatches : Matches same d d')
    (hroom : d.jumpLimit + more ≤ d'.jumpLimit)
    (h : BackendDiffers d same s backend'.name node node') (path path' : Path) :
    Leads d more more (Rebacked backend? withBackend s backend')
      (ofNode d Yaml.depthLimit path node) (ofNode d' Yaml.depthLimit path' node') := by
  unfold ofNode
  -- The fields behind the specification keep the difference, those in front of it know of none, and
  -- the specification itself makes it.
  refine Document.leads_record_under hmatches hroom ?_ (by decide) ?_ ?_ h
  · rintro record _ name path path' node node' hne ⟨hbackend, rfl⟩ h place place' within within'
    split
    · exact Document.leads_taken_rel (Document.leads_string hmatches hroom h _ _)
        (fun _ _ hsame => hsame ▸ ⟨hbackend, rfl⟩) _ _ _ _
    · exact Document.leads_taken_rel (Document.leads_string hmatches hroom h _ _)
        (fun _ _ hsame => hsame ▸ ⟨hbackend, rfl⟩) _ _ _ _
    · exact Document.leads_taken_rel (ObjectMeta.leads_ofNode_alike hmatches hroom h)
        (fun _ _ hsame => hsame ▸ ⟨hbackend, rfl⟩) _ _ _ _
    · exact absurd rfl hne
    · exact .pure ⟨hbackend, rfl⟩
  · intro record name path path' node node' h place place' within within'
    dsimp only
    split
    · exact Document.leads_taken (Document.leads_string hmatches hroom h _ _) _ _ _ _ _
    · exact Document.leads_taken (Document.leads_string hmatches hroom h _ _) _ _ _ _ _
    · exact Document.leads_taken (ObjectMeta.leads_ofNode_alike hmatches hroom h) _ _ _ _ _
    · exact Document.leads_taken (Document.leads_loose_alike hmatches hroom h) _ _ _ _ _
    · exact .pure rfl
  · intro record path path' node node' h place place' within within'
    have hspec : Leads d more more
        (Rebacked MonitoringSpec.backend? MonitoringSpec.withBackend s backend')
        (d.loose "MonitoringSpec" MonitoringSpec.ofUntyped (Yaml.depthLimit - 1) path node)
        (d'.loose "MonitoringSpec" MonitoringSpec.ofUntyped (Yaml.depthLimit - 1) path' node') := by
      have hmore := Nat.le_refl more
      -- From the specification to its traces, to their storage, and to the backend.
      refine Document.leads_loose_under hmatches hmore hroom (fun path path' _ _ h => ?_) h
        fun _ _ _ h => MonitoringSpec.leads_ofUntyped h _
      refine Document.leads_untyped_under hmatches hmore hroom (fun path path' _ _ h => ?_) h path
        path'
      refine Document.leads_untyped_under hmatches hmore hroom (fun path path' _ _ h => ?_) h path
        path'
      rw [h.1.untyped, h.2.untyped]
      exact .pure ⟨rfl, rfl⟩
    refine Document.leads_taken_rel hspec ?_ _ _ _ _
    rintro spec _ ⟨hbackend, rfl⟩
    exact ⟨hbackend, rfl⟩

end

/-- What is read of a manifest is read of it whatever its kind, and its kind is not another. -/
theorem read_eq_ok_iff {manifest : String} {m : Monitoring} :
    read manifest = .ok m ↔
      readAny manifest = .ok m ∧ ¬(m.kind ≠ "" ∧ m.kind ≠ expectedKind) := by
  constructor
  · intro hread
    have hany := readAny_of_read hread
    rw [read, hany] at hread
    dsimp only at hread
    split at hread
    · cases hread
    · rename_i hkind
      exact ⟨hany, hkind⟩
  · rintro ⟨hany, hkind⟩
    rw [read, hany]
    exact if_neg hkind

section

variable {s : String} {backend' : TracesBackend} {manifest manifest' : String}
  (h : Rewords s backend'.name (.ofString manifest) (.ofString manifest'))

include h

/-- What was read of a manifest is read of it with another backend.  It has the backend whose name
is written. -/
theorem read_reworded {m : Monitoring} (hread : read manifest = .ok m) :
    (∃ backend, backend.name = s ∧ m.backend? = some backend) ∧
      read manifest' = .ok (m.withBackend backend') := by
  obtain ⟨hroot, hroot', hmatches, hdiffers, hsize, htail, hmore⟩ := h
  obtain ⟨hany, hkind⟩ := read_eq_ok_iff.mp hread
  have hroom : (Document.ofString manifest).jumpLimit + 0 ≤
      (Document.ofString manifest').jumpLimit := by
    unfold Document.jumpLimit
    omega
  obtain ⟨htail₀, hmore₀⟩ := Document.ends_of_decode hany
  have hleads := leads_ofNode_differs hmatches hroom hdiffers .root .root
  obtain ⟨_, hany', hbackend, rfl⟩ := Document.decode_of_leads (.ok {}) hroot hroot'
    (htail.trans htail₀) (hmore.trans hmore₀) hleads hany
  exact ⟨hbackend, read_eq_ok_iff.mpr ⟨hany', hkind⟩⟩

/-- A manifest with a string in quotes for its backend is read exactly where the string is a name
and the manifest is read with another name in its place.  A name on its own is read by its lower
case, so it is the same backend wherever the manifest is read. -/
theorem read_backend_iff :
    (∀ m, read manifest = .ok m ↔ ∃ backend m', backend.name = s ∧ read manifest' = .ok m' ∧
      m = m'.withBackend backend) ∧
    (∀ m, read manifest = .ok m → ∃ backend, m.backend? = some backend ∧ backend.name = s ∧
      TracesBackend.parse s = .ok backend) ∧
    (∀ lowered, TracesBackend.Lowers s.toList lowered → ∀ backend,
      TracesBackend.parse s = .ok backend ↔ lowered = backend.name.toList) ∧
    ∀ backend, TracesBackend.parse backend.name = .ok backend := by
  refine ⟨fun m => ⟨fun hread => ?_, ?_⟩, fun m hread => ?_, fun lowered hlowers backend => ?_,
    TracesBackend.parse_name⟩
  · obtain ⟨⟨backend, hname, hbackend⟩, hread'⟩ := read_reworded h hread
    exact ⟨backend, _, hname, hread', (withBackend_withBackend hbackend backend').symm⟩
  -- Now `s` is a name, so the manifests can change places.
  · rintro ⟨backend, m', rfl, hread', rfl⟩
    exact (read_reworded h.symm hread').2
  · obtain ⟨⟨backend, hname, hbackend⟩, -⟩ := read_reworded h hread
    exact ⟨backend, hbackend, hname, hname ▸ TracesBackend.parse_name backend⟩
  · exact TracesBackend.parse_eq_ok_iff hlowers

end

open Yaml (DocumentEvents PlacedEvent)

/-- A manifest that has nothing but a backend. -/
def backendManifest (text : String) : String :=
  "spec:\n  traces:\n    storage:\n      backend: \"" ++ text ++ "\""

/-- The events of such a manifest, if the backend is a string of two characters. -/
def backendEvents (text : String) : List PlacedEvent :=
  [⟨.mappingStart {}, {}⟩, ⟨.scalar {} .plain "spec".toList, {}⟩,
    ⟨.mappingStart {}, ⟨8, 8, 1, 2⟩⟩, ⟨.scalar {} .plain "traces".toList, ⟨8, 8, 1, 2⟩⟩,
    ⟨.mappingStart {}, ⟨20, 20, 2, 4⟩⟩, ⟨.scalar {} .plain "storage".toList, ⟨20, 20, 2, 4⟩⟩,
    ⟨.mappingStart {}, ⟨35, 35, 3, 6⟩⟩, ⟨.scalar {} .plain "backend".toList, ⟨35, 35, 3, 6⟩⟩,
    ⟨.scalar {} .doubleQuoted text.toList, ⟨44, 44, 3, 15⟩⟩, ⟨.mappingEnd, ⟨48, 48, 4, 0⟩⟩,
    ⟨.mappingEnd, ⟨48, 48, 4, 0⟩⟩, ⟨.mappingEnd, ⟨48, 48, 4, 0⟩⟩, ⟨.mappingEnd, ⟨48, 48, 4, 0⟩⟩]

theorem rewords_of_events {s s' manifest manifest' : String}
    (h : DocumentEvents.ofString manifest = { events := backendEvents s })
    (h' : DocumentEvents.ofString manifest' = { events := backendEvents s' }) :
    Rewords s s' (.ofString manifest) (.ofString manifest') := by
  rw [Document.ofString, h, Document.ofString, h']
  have hnone {d d' : Document} : Matches (fun _ _ => False) d d' := fun _ _ => False.elim
  refine .mk rfl rfl hnone ?_ rfl rfl rfl
  refine .mapping (.now (.mk ⟨rfl, .scalar, ?_⟩ .nil))
  refine .mapping (.now (.mk ⟨rfl, .scalar, ?_⟩ .nil))
  refine .mapping (.mapping (.now (.mk ⟨rfl, .scalar, ?_⟩ .nil)))
  exact .mapping (.mapping (.now (.mk ⟨rfl, .scalar, .double, .double⟩ .nil)))

theorem ofString_pv :
    DocumentEvents.ofString (backendManifest "pv") = { events := backendEvents "pv" } := by
  decide +kernel

theorem read_pv : ∃ m, read (backendManifest "pv") = .ok m := by
  have haccepted : (read (backendManifest "pv")).isOk = true := by decide +kernel
  cases hread : read (backendManifest "pv") with
  | error e =>
    rw [hread] at haccepted
    nomatch haccepted
  | ok m => exact ⟨m, rfl⟩

/-- The name of one backend is read in the place of another. -/
theorem read_backend_iff_at_s3 :
    Rewords "s3" TracesBackend.pv.name (.ofString (backendManifest "s3"))
        (.ofString (backendManifest "pv")) ∧
      (∃ m, read (backendManifest "pv") = .ok m ∧
        read (backendManifest "s3") = .ok (m.withBackend .s3)) ∧
      TracesBackend.parse "s3" = .ok .s3 := by
  have hevents : DocumentEvents.ofString (backendManifest "s3") =
      { events := backendEvents "s3" } := by
    decide +kernel
  have hrewords : Rewords "s3" TracesBackend.pv.name (.ofString (backendManifest "s3"))
      (.ofString (backendManifest "pv")) := rewords_of_events hevents ofString_pv
  obtain ⟨m, hread⟩ := read_pv
  obtain ⟨hiff, -, hlowers, -⟩ := read_backend_iff hrewords
  exact ⟨hrewords, ⟨m, hread, (hiff _).mpr ⟨.s3, m, rfl, hread, rfl⟩⟩,
    (hlowers _ (.of_map _) .s3).mpr rfl⟩

/-- A name in capital letters is read on its own, but not in a manifest. -/
theorem read_refuses_capitals :
    ¬ ∀ s manifest manifest' backend' m', Rewords s (TracesBackend.name backend')
        (.ofString manifest) (.ofString manifest') → read manifest' = .ok m' →
      ((∃ m, read manifest = .ok m) ↔ ∃ backend, TracesBackend.parse s = .ok backend) := by
  intro hclaim
  have hevents : DocumentEvents.ofString (backendManifest "PV") =
      { events := backendEvents "PV" } := by
    decide +kernel
  obtain ⟨m', hread'⟩ := read_pv
  obtain ⟨m, hread⟩ := (hclaim "PV" _ _ .pv m' (rewords_of_events hevents ofString_pv) hread').mpr
    ⟨.pv, rfl⟩
  have hrefused : (read (backendManifest "PV")).toOption.isNone = true := by decide +kernel
  rw [hread] at hrefused
  nomatch hrefused

end Monitoring

end CollectorTemplate
