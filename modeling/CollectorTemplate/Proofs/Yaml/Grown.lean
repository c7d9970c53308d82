/-
Documents with an entry more.

Two documents are compared of which the second has an entry more in a record, or in a record that is
a field of it, and so on.  What was read of the first is read of the second with an entry more, if
the value of that entry can be read; and if it was read, then the value was.

* `Untyped.GainsAt`, `Node.GainsAt` : data and nodes with an entry more in a field of a field;
* `Document.leads_gainsAt` : such nodes are read as such data;
* `Document.leads_loose_gains` : a record that becomes data first, with an entry more;
* `Document.leads_value` : the value of the entry, which a document of its own holds;
* `Document.means_of_looseGains` : data were read of the value;
* `Document.decode_of_leads` : documents whose roots are read alike.
-/
import CollectorTemplate.Proofs.Yaml.Fields
import CollectorTemplate.Proofs.Yaml.Strictness

namespace CollectorTemplate

/-! ### Data with an entry more -/

/-- A field of a record, among all of its fields. -/
structure RecordField where
  all : List String
  name : String
  mem : name ∈ all := by decide

namespace Untyped

/-- Data with an entry more in a mapping. -/
inductive Gains (entry : Untyped × Untyped) : Untyped → Untyped → Prop
  | mapping {n : Nat} {entries entries' : List (Untyped × Untyped)}
      (h : Until Eq (Extra Eq entry) n entries entries') :
      Gains entry (.mapping entries) (.mapping entries')

/-- Data of a record that differ in one field, whose data are related by `inner`. -/
inductive Under (field : RecordField) (inner : Untyped → Untyped → Prop) :
    Untyped → Untyped → Prop
  | mapping {n : Nat} {entries entries' : List (Untyped × Untyped)}
      (h : Until Eq (First Eq fun a b => names field.all field.name a.1 = true ∧ a.1 = b.1 ∧
        inner a.2 b.2) n entries entries') :
      Under field inner (.mapping entries) (.mapping entries')
  | sequence {n : Nat} {items items' : List Untyped} (h : Until Eq (First Eq inner) n items items')
      (hfield : field.all[n]? = some field.name) :
      Under field inner (.sequence items) (.sequence items')

/-- Data with an entry more in the field that a path leads to. -/
def GainsAt (entry : Untyped × Untyped) : List RecordField → Untyped → Untyped → Prop
  | [] => Gains entry
  | field :: path => Under field (GainsAt entry path)

end Untyped

namespace Yaml

/-! ### Nodes with an entry more -/

namespace Node

/-- A mapping with an entry more. -/
inductive Gains (same : Nat → Nat → Prop) (entry : Node × Node) : Node → Node → Prop
  | mapping {n : Nat} {place place' : Mark} {tag : Option TagText}
      {entries entries' : List (Node × Node)}
      (h : Until (AlikeEntries same) (Extra (AlikeEntries same) entry) n entries entries') :
      Gains same entry (.mapping place tag entries) (.mapping place' tag entries')

/-- Mappings that differ in the value of one entry, whose key is in `keys`. -/
inductive Under (same : Nat → Nat → Prop) (keys : Node → Bool) (inner : Node → Node → Prop) :
    Node → Node → Prop
  | mapping {n : Nat} {place place' : Mark} {tag : Option TagText}
      {entries entries' : List (Node × Node)}
      (h : Until (AlikeEntries same) (First (AlikeEntries same) (ValuesDiffer same keys inner)) n
        entries entries') :
      Under same keys inner (.mapping place tag entries) (.mapping place' tag entries')

theorem Under.imp {same : Nat → Nat → Prop} {keys : Node → Bool} {inner inner' : Node → Node → Prop}
    {node node' : Node} (h : Under same keys inner node node')
    (hinner : ∀ node node', inner node node' → inner' node node') :
    Under same keys inner' node node' := by
  cases h with
  | mapping h =>
    refine .mapping (h.imp ?_)
    rintro _ _ ⟨⟨hkey, halike, hvalue⟩, hrest⟩
    exact .mk ⟨hkey, halike, hinner _ _ hvalue⟩ hrest

/-- Records that differ in one field, whose nodes are related by `inner`.  A record may be written
as a sequence of its fields. -/
inductive UnderField (d : Document) (same : Nat → Nat → Prop) (field : RecordField)
    (inner : Node → Node → Prop) : Node → Node → Prop
  | mapping {node node' : Node} (h : Under same (d.names field.all field.name) inner node node') :
      UnderField d same field inner node node'
  | sequence {n : Nat} {place place' : Mark} {tag : Option TagText} {items items' : List Node}
      (h : Until (Alike same) (First (Alike same) inner) n items items')
      (hfield : field.all[n]? = some field.name) :
      UnderField d same field inner (.sequence place tag items) (.sequence place' tag items')

/-- Records with an entry more in the field that a path leads to. -/
def GainsAt (d : Document) (same : Nat → Nat → Prop) (entry : Node × Node) :
    List RecordField → Node → Node → Prop
  | [] => Gains same entry
  | field :: path => UnderField d same field (GainsAt d same entry path)

/-- Records that become data first, with an entry more in the field that a path leads to.  Their own
keys are texts. -/
def LooseGains (d : Document) (same : Nat → Nat → Prop) (entry : Node × Node) :
    List RecordField → Node → Node → Prop
  | [] => Gains same entry
  | field :: path => Under same (d.writes field.name) (GainsAt d same entry path)

end Node

namespace Document

section

variable {d d' : Document} {same : Nat → Nat → Prop} {more more' : Nat} {node node' : Node}

/-! ### Nodes as data -/

/-- The reader of data that get a type later reads a content only where the tag has no name. -/
theorem leads_buffer_tagged {rel : Untyped → Untyped → Prop} {name : Option String}
    {place place' : Mark} {path path' : Path} {content content' : Reads Untyped}
    (h : Leads d more more' rel content content') :
    Leads d more more' rel (Strictness.buffer.tagged name place path content)
      (Strictness.buffer.tagged name place' path' content') := by
  cases name with
  | none => exact h
  | some name => exact .throw

section

variable {depth : Nat} {place place' : Mark} {tag : Option TagText} {rel : Untyped → Untyped → Prop}

theorem leads_untyped_mapping {entries entries' : List (Node × Node)}
    (h : ∀ path path', Leads d more more' (fun a b => rel (.mapping a) (.mapping b))
      (readPairs (d.untyped .buffer depth) (d.untyped .buffer depth) path entries)
      (readPairs (d'.untyped .buffer depth) (d'.untyped .buffer depth) path' entries'))
    (path path' : Path) :
    Leads d more more' rel (d.untyped .buffer (depth + 1) path (.mapping place tag entries))
      (d'.untyped .buffer (depth + 1) path' (.mapping place' tag entries')) := by
  rw [untyped_eq, untyped_eq]
  refine leads_buffer_tagged ?_
  unfold untagged
  dsimp only
  rw [entries_buffer_eq, entries_buffer_eq]
  exact (h _ _).bind fun a b hab => .pure hab

theorem leads_untyped_sequence {nodes nodes' : List Node}
    (h : ∀ path path', Leads d more more' (fun a b => rel (.sequence a) (.sequence b))
      (items (d.untyped .buffer depth) path 0 nodes)
      (items (d'.untyped .buffer depth) path' 0 nodes'))
    (path path' : Path) :
    Leads d more more' rel (d.untyped .buffer (depth + 1) path (.sequence place tag nodes))
      (d'.untyped .buffer (depth + 1) path' (.sequence place' tag nodes')) := by
  rw [untyped_eq, untyped_eq]
  refine leads_buffer_tagged ?_
  exact (h _ _).bind fun a b hab => .pure hab

end

/-- A scalar that is read as data and whose tag has no name. -/
theorem untyped_of_data? {node : Node} {data : Untyped} (hname : node.localName? = none)
    (h : node.data? = some data) (d : Document) (depth : Nat) (path : Path) :
    d.untyped .buffer depth path node = Pure.pure data := by
  cases node with
  | scalar place tag style text =>
    rw [untyped_eq]
    change Strictness.buffer.tagged (Node.scalar place tag style text).localName? place path
      (d.untagged .buffer depth path (.scalar place tag style text)) = _
    rw [hname]
    change d.untagged .buffer depth path (.scalar place tag style text) = _
    rw [Node.data?] at h
    simp only [untagged, hname, Option.isSome_none, Bool.false_eq_true, if_false]
    cases hvalue : (scalarMeaning tag style text).bind
        (meaningData Strictness.buffer.expected text) with
    | error cause =>
      rw [hvalue] at h
      cases h
    | ok value =>
      rw [hvalue] at h
      rw [← Option.some.inj h]
  | _ => cases h

/-- A record that differs in one field is read as data that differ there. -/
theorem leads_untyped_under {field : RecordField} {inner : Node → Node → Prop}
    {rel : Untyped → Untyped → Prop} {depth : Nat} (hmatches : Matches same d d')
    (hmore : more ≤ more') (hroom : d.jumpLimit + more' ≤ d'.jumpLimit)
    (hinner : ∀ path path' node node', inner node node' →
      Leads d more more' rel (d.untyped .buffer depth path node)
        (d'.untyped .buffer depth path' node'))
    (h : node.UnderField d same field inner node') (path path' : Path) :
    Leads d more more' (Untyped.Under field rel) (d.untyped .buffer (depth + 1) path node)
      (d'.untyped .buffer (depth + 1) path' node') := by
  have hread (some : Nat) (hsome : d.jumpLimit + some ≤ d'.jumpLimit) :
      ReadAlike same d some (d.untyped .buffer depth) (d'.untyped .buffer depth) :=
    readAlike_untyped hmatches hsome .buffer depth
  cases h with
  | mapping h =>
    cases h with
    | mapping h =>
      have hnamed (path : Path) (key : Node) (k : Untyped)
          (hkey : d.names field.all field.name key = true)
          (hgives : Gives (d.untyped .buffer depth path key) k) :
          k.names field.all field.name = true := by
        obtain ⟨before, after, hrun⟩ := hgives
        have hmeans : d.Means key k := ⟨depth, path, before, after, hrun⟩
        rw [← hmeans.names, hkey]
      refine leads_untyped_mapping (fun path path' => ?_) path path'
      exact (leads_readPairs_first hread hread hmore hroom hnamed hinner h).imp
        fun _ _ _ => .mapping
  | sequence h hfield =>
    refine leads_untyped_sequence (fun path path' => ?_) path path'
    refine (leads_items (hread more (by omega)) ?_ h).imp fun _ _ _ h => .sequence h hfield
    rintro index _ _ ⟨hfirst, hrest⟩
    refine (hinner _ _ _ _ hfirst).bind fun item item' hitem => ?_
    refine (leads_items_alike (hread more' hroom) hrest).bind ?_
    rintro items _ rfl
    exact .pure (.mk hitem (List.forall₂_same.mpr fun _ _ => rfl))

section

variable (hmatches : Matches same d d') (hmore : more ≤ more')
  (hroom : d.jumpLimit + more' ≤ d'.jumpLimit) {key value : Node} {k v : Untyped} {room : Nat}
  (hname : key.localName? = none) (hkey : key.data? = some k)
  (hvalue : ∀ path, Leads d more more' (fun _ b => b = v) (Pure.pure ())
    (d'.untyped .buffer room path value))

include hmatches hmore hroom hname hkey hvalue

/-- Records with an entry more in a field of a field are read as data with an entry more there. -/
theorem leads_gainsAt {fields : List RecordField}
    (h : node.GainsAt d same (key, value) fields node') (path path' : Path) :
    Leads d more more' (Untyped.GainsAt (k, v) fields)
      (d.untyped .buffer (room + fields.length + 1) path node)
      (d'.untyped .buffer (room + fields.length + 1) path' node') := by
  induction fields generalizing node node' path path' with
  | nil =>
    have hread (some : Nat) (hsome : d.jumpLimit + some ≤ d'.jumpLimit) :
        ReadAlike same d some (d.untyped .buffer room) (d'.untyped .buffer room) :=
      readAlike_untyped hmatches hsome .buffer room
    cases h with
    | mapping h =>
      refine leads_untyped_mapping (fun path path' => ?_) path path'
      exact (leads_readPairs_extra hread hread hmore hroom (untyped_of_data? hname hkey d' _) hvalue
        h).imp fun _ _ _ => .mapping
  | cons field fields ih =>
    exact leads_untyped_under hmatches hmore hroom (fun path path' _ _ h => ih h path path') h
      path path'

end

/-- A record that becomes data first and differs in one field is related to another where what is
read of such data is. -/
theorem leads_loose_under {α : Type} {name : String} {read read' : Untyped → Except Complaint α}
    {field : RecordField} {inner : Node → Node → Prop} {rel : Untyped → Untyped → Prop}
    {given : α → α → Prop} {depth : Nat} {path path' : Path} (hmatches : Matches same d d')
    (hmore : more ≤ more') (hroom : d.jumpLimit + more' ≤ d'.jumpLimit)
    (hinner : ∀ path path' node node', inner node node' →
      Leads d more more' rel (d.untyped .buffer (depth - 1) path node)
        (d'.untyped .buffer (depth - 1) path' node'))
    (h : node.Under same (d.writes field.name) inner node')
    (hread : ∀ data data' value, Untyped.Under field rel data data' → read data = .ok value →
      ∃ value', read' data' = .ok value' ∧ given value value') :
    Leads d more more' given (d.loose name read depth path node)
      (d'.loose name read' depth path' node') := by
  cases h with
  | mapping h =>
    have hnamed (path : Path) (key : Node) (k : Untyped) (hkey : d.writes field.name key = true)
        (hgives : Gives (d.fieldName path key) k) : k.names field.all field.name = true := by
      obtain ⟨before, after, hrun⟩ := hgives
      obtain ⟨chars, between, htext, hrun⟩ := reads_bind hrun
      obtain ⟨rfl, -⟩ := Prod.mk.inj (Except.ok.inj hrun)
      rw [writes, text_eq htext] at hkey
      rw [Untyped.names_string field.mem]
      simpa using hkey
    exact leads_loose_rel (leads_recordEntries_mapping h name _ _ _ _ _ _)
      (fun path path' n pairs pairs' h =>
        leads_readPairs_first (fun _ => readAlike_fieldName hmatches)
          (fun _ hroom => readAlike_untyped hmatches hroom .buffer _) hmore hroom hnamed hinner h)
      fun n data data' value h => hread _ _ value (.mapping h)

/-- A record that becomes data first is the same with an entry more if its data are. -/
theorem leads_loose_gains {α : Type} {name : String} {read : Untyped → Except Complaint α}
    {room : Nat} {fields : List RecordField} {path path' : Path} {key value : Node} {text : String}
    {v : Untyped} (hmatches : Matches same d d') (hmore : more ≤ more')
    (hroom : d.jumpLimit + more' ≤ d'.jumpLimit) (hname : key.localName? = none)
    (hkey : key.data? = some (.string text))
    (hvalue : ∀ path, Leads d more more' (fun _ b => b = v) (Pure.pure ())
      (d'.untyped .buffer room path value))
    (h : node.LooseGains d same (key, value) fields node')
    (hread : ∀ data data', Untyped.GainsAt (.string text, v) fields data data' →
      read data' = read data) :
    Leads d more more' Eq (d.loose name read (room + fields.length + 1) path node)
      (d'.loose name read (room + fields.length + 1) path' node') := by
  cases fields with
  | nil =>
    cases h with
    | mapping h =>
      refine leads_loose (leads_recordEntries_mapping h name _ _ _ _ _ _)
        (fun path path' n pairs pairs' h =>
          leads_readPairs_extra (fun _ => readAlike_fieldName hmatches)
            (fun _ hroom => readAlike_untyped hmatches hroom .buffer _) hmore hroom ?_ hvalue h)
        fun n data data' h => hread _ _ (.mapping h)
      intro path
      rw [fieldName, text_of_text? (Node.text?_of_data? hkey), pure_bind, String.ofList_toList]
  | cons field fields =>
    refine leads_loose_under hmatches hmore hroom (fun path path' node node' h => ?_) h
      fun data data' value h hvalue => ⟨value, by rw [hread data data' h, hvalue], rfl⟩
    exact leads_gainsAt hmatches hmore hroom hname hkey hvalue h path path'

/-! ### Records that are read directly -/

/-- A record is read with an entry more that is unknown. -/
theorem leads_recordEntries_gains {fields : List String}
    {inner : String → Node → Node → Prop} {key value : Node} {text : String}
    (hkey : key.text? = some text) (htext : text ∉ fields) (hwhole : value.breakage? = none)
    (h : node.Gains same (key, value) node') (name : String) (depth : Nat) (path path' : Path) :
    Leads d more more (EntriesAlike same (Change d same fields inner))
      (d.recordEntries name depth path node) (d'.recordEntries name depth path' node') := by
  cases h with
  | mapping h =>
    refine leads_recordEntries_mapping (h.imp ?_) name depth path path' _ _ _
    rintro _ _ ⟨hrest⟩
    exact .unknown hkey htext hwhole hrest

/-- A record is read with a field that differs. -/
theorem leads_recordEntries_under {fields : List String} {field : String}
    {inner : String → Node → Node → Prop} (hfield : field ∈ fields)
    (h : node.Under same (d.writes field) (inner field) node') (name : String) (depth : Nat)
    (path path' : Path) :
    Leads d more more (EntriesAlike same (Change d same fields inner))
      (d.recordEntries name depth path node) (d'.recordEntries name depth path' node') := by
  cases h with
  | mapping h =>
    refine leads_recordEntries_mapping (h.imp ?_) name depth path path' _ _ _
    rintro _ _ ⟨hfirst, hrest⟩
    exact .inner hfield hfirst hrest

end

/-! ### Whole documents -/

/-- What is read of a document is read of another that ends after its root. -/
theorem decode_of_leads {d d' : Document} {more : Nat} {α : Type} {rel : α → α → Prop}
    {read read' : Node → Reads α} {missing : Except ReadError α} (missing' : Except ReadError α)
    {root root' : Node} (hroot : d.root = some root) (hroot' : d'.root = some root')
    (htail : d'.tail = none) (hmore : d'.more = false)
    (h : Leads d 0 more rel (read root) (read' root')) {value : α}
    (hvalue : d.decode missing read = .ok value) :
    ∃ value', d'.decode missing' read' = .ok value' ∧ rel value value' := by
  obtain ⟨hnone, -⟩ | ⟨_, after, hsome, hrun⟩ := decode_eq_ok hvalue
  · rw [hroot] at hnone
    nomatch hnone
  · obtain rfl := Option.some.inj (hroot.symm.trans hsome)
    obtain ⟨-, hrun'⟩ := h 0 value after (Nat.zero_le _) hrun
    obtain ⟨value', after', hrun', hrel, -⟩ := hrun' 0 (Nat.zero_le _)
    refine ⟨value', ?_, hrel⟩
    rw [decode_of_root hroot' htail hmore, hrun']
    rfl

/-! ### The value of an entry more -/

/-- The node that a document holds.  Where nothing is written this is an empty scalar. -/
def held (d : Document) : Node := d.root.getD (.scalar {} none .plain [])

section

/-- The data of a document whose collections may be nested `depth` deep. -/
def dataWithin (d : Document) (s : Strictness) (depth : Nat) : Except ReadError Untyped :=
  d.decode (.ok .null) (d.untyped s depth .root)

variable {d d' v : Document} {same : Nat → Nat → Prop} {depth : Nat} {data : Untyped}

theorem held_run (h : v.dataWithin .value depth = .ok data) :
    ∃ after, (v.untyped .value depth .root v.held).run 0 = .ok (data, after) := by
  unfold held
  rcases decode_eq_ok h with ⟨hroot, hnull⟩ | ⟨root, after, hroot, hrun⟩
  · obtain rfl := Except.ok.inj hnull
    refine ⟨0, ?_⟩
    rw [hroot, untyped_eq]
    rfl
  · refine ⟨after, ?_⟩
    rw [hroot]
    exact hrun

variable (hmatches : Matches same v d') {value : Node} (halike : v.held.Alike same value)
  (h : v.dataWithin .value depth = .ok data)

include hmatches halike h

/-- What a document holds is read as the same in another one. -/
theorem value_run {before : Nat} (hroom : v.jumpLimit + before ≤ d'.jumpLimit) (path : Path) :
    ∃ after, (d'.untyped .value depth path value).run before = .ok (data, after) ∧
      after ≤ before + v.jumpLimit := by
  obtain ⟨middle, hrun⟩ := held_run h
  obtain ⟨hmiddle, hread⟩ :=
    readAlike_untyped hmatches hroom .value depth .root path _ _ halike 0 data middle
      (Nat.zero_le _) hrun
  obtain ⟨_, after, hafter, rfl, hle⟩ := hread before (by omega)
  exact ⟨after, hafter, by omega⟩

/-- It is read as data that get a type later as well, if it holds no tag. -/
theorem leads_value (hroom : d.jumpLimit + v.jumpLimit ≤ d'.jumpLimit) (htag : ¬data.HoldsTag)
    (path : Path) :
    Leads d 0 v.jumpLimit (fun _ b => b = data) (Pure.pure ())
      (d'.untyped .buffer depth path value) := by
  intro before a after hlimit hrun
  obtain ⟨-, rfl⟩ := Prod.mk.inj (Except.ok.inj hrun)
  refine ⟨hlimit, fun before' hbefore => ?_⟩
  have hroom' : v.jumpLimit + before' ≤ d'.jumpLimit := by omega
  obtain ⟨after', hvalue, hle⟩ := value_run hmatches halike h hroom' path
  exact ⟨data, after', lenientAt d' depth _ _ _ _ _ hvalue htag, rfl, by omega⟩

end

/-! ### What was read where there is an entry more -/

section

variable {d d' : Document} {same : Nat → Nat → Prop} {node node' key value : Node}
  {fields : List RecordField} {before after : Nat}

/-- Data are read of each value in a mapping. -/
theorem Means.of_mem {place : Mark} {tag : Option TagText} {entries : List (Node × Node)}
    {data : Untyped} (h : d.Means (.mapping place tag entries) data) {entry : Node × Node}
    (hentry : entry ∈ entries) : ∃ v, d.Means entry.2 v := by
  obtain hdata | ⟨_, _, _, _, hnode, -⟩ | ⟨_, _, _, _, hnode, -, hall⟩ := h.cases
  · nomatch hdata
  · nomatch hnode
  · obtain ⟨-, -, rfl⟩ := Node.mapping.inj hnode
    obtain ⟨_, -, hvalue⟩ := exists_of_forall₂ hall hentry
    exact ⟨_, hvalue⟩

/-- Where data were read of a record with an entry more, data were read of the entry's value. -/
theorem Means.of_gainsAt (h : node.GainsAt d same (key, value) fields node') {data : Untyped}
    (hmeans : d'.Means node' data) : ∃ v, d'.Means value v := by
  induction fields generalizing node node' data with
  | nil =>
    cases h with
    | mapping h => exact hmeans.of_mem h.mem_extra
  | cons field fields ih =>
    cases h with
    | mapping h =>
      cases h with
      | mapping h =>
        obtain ⟨a, b, hb, -, -, hinner⟩ := h.mem_first
        obtain ⟨v, hv⟩ := hmeans.of_mem hb
        exact ih hinner hv
    | sequence h hfield =>
      obtain ⟨a, b, hb, hinner⟩ := h.mem_first
      obtain hdata | ⟨_, _, _, _, hnode, -, hall⟩ | ⟨_, _, _, _, hnode, -⟩ := hmeans.cases
      · nomatch hdata
      · obtain ⟨-, -, rfl⟩ := Node.sequence.inj hnode
        obtain ⟨v, hv⟩ := exists_of_forall₂ hall hb
        exact ih hinner hv
      · nomatch hnode

/-- Data were read of each value in a record that became data first. -/
theorem means_of_loose {α : Type} {name : String} {read : Untyped → Except Complaint α}
    {depth : Nat} {path : Path} {record : α}
    (h : (d.loose name read depth path node).run before = .ok (record, after))
    {entry : Node × Node} (hentry : entry ∈ (d.content node).pairs) : ∃ v, d.Means entry.2 v := by
  unfold loose at h
  obtain ⟨⟨place, path', pairs⟩, between, hpairs, h⟩ := reads_bind h
  obtain rfl := recordEntries_eq hpairs
  obtain ⟨entries, between', hentries, -⟩ := reads_bind h
  obtain ⟨_, -, hvalue⟩ := exists_of_forall₂ (looseEntries_means hentries) hentry
  exact ⟨_, hvalue⟩

/-- Where a record with an entry more was read, data were read of the entry's value. -/
theorem means_of_looseGains {α : Type} {name : String} {read : Untyped → Except Complaint α}
    {depth : Nat} {path : Path} {record : α}
    (h : node.LooseGains d same (key, value) fields node')
    (hrun : (d'.loose name read depth path node').run before = .ok (record, after)) :
    ∃ v, d'.Means value v := by
  cases fields with
  | nil =>
    cases h with
    | mapping h => exact means_of_loose hrun h.mem_extra
  | cons field fields =>
    cases h with
    | mapping h =>
      obtain ⟨a, b, hb, -, -, hinner⟩ := h.mem_first
      obtain ⟨v, hv⟩ := means_of_loose hrun hb
      exact hv.of_gainsAt hinner

/-- Each field that stands in a record was read. -/
theorem gives_of_fillRecord {α : Type} {fields : List String} {first record : α}
    {read : α → String → Path → Node → ExceptT Complaint Reads α} {place : Mark} {path : Path}
    {seen : List String} {pairs : List (Node × Node)}
    (h : (d.fillRecord fields read place path seen first pairs).run before = .ok (record, after))
    {field : String} (hfield : field ∈ fields) {entry : Node × Node} (hentry : entry ∈ pairs)
    (hkey : d.writes field entry.1 = true) :
    ∃ record path place within next,
      Gives (blame place within (read record field path entry.2)) next := by
  induction pairs generalizing seen first before with
  | nil => exact absurd hentry List.not_mem_nil
  | cons pair rest ih =>
    obtain ⟨key, value⟩ := pair
    rw [fillRecord] at h
    obtain ⟨chars, between, hchars, h⟩ := reads_bind h
    have hname (hentry : entry = (key, value)) : String.ofList chars = field := by
      rw [hentry, writes, text_eq hchars] at hkey
      simpa using hkey
    by_cases hknown : fields.contains (String.ofList chars) = true
    · by_cases hseen : seen.contains (String.ofList chars) = true
      · simp only [hknown, hseen, if_true] at h
        cases h
      simp only [hknown, hseen, if_true] at h
      obtain ⟨next, between', hnext, h⟩ := reads_bind h
      rcases List.mem_cons.mp hentry with hentry | hentry
      · obtain rfl := hname hentry
        rw [hentry]
        exact ⟨_, _, _, _, _, _, _, hnext⟩
      · exact ih h hentry
    · simp only [hknown] at h
      rcases List.mem_cons.mp hentry with hentry | hentry
      · exact absurd (by simpa [hname hentry] using hfield) hknown
      · cases hbroken : value.breakage? with
        | some cause =>
          rw [hbroken] at h
          cases h
        | none =>
          rw [hbroken] at h
          exact ih h hentry

theorem gives_of_record {α : Type} {name : String} {fields : List String} {blank record : α}
    {read : α → String → Path → Node → ExceptT Complaint Reads α} {depth : Nat} {path : Path}
    (h : (d.record name fields blank read depth path node).run before = .ok (record, after))
    {field : String} (hfield : field ∈ fields) {entry : Node × Node}
    (hentry : entry ∈ (d.content node).pairs) (hkey : d.writes field entry.1 = true) :
    ∃ record path place within next,
      Gives (blame place within (read record field path entry.2)) next := by
  unfold Document.record at h
  obtain ⟨⟨place, path', pairs⟩, between, hpairs, h⟩ := reads_bind h
  obtain rfl := recordEntries_eq hpairs
  exact gives_of_fillRecord h hfield hentry hkey

/-- What alike nodes share is shared by what alike nodes stand for. -/
theorem content_of_alike {α : Type} {f : Node → α}
    (hf : ∀ node node', Node.Alike same node node' → f node' = f node)
    (hmatches : Matches same d d') (h : key.Alike same value) :
    f (d'.content value) = f (d.content key) := by
  cases h with
  | reference hsame => exact hf _ _ (hmatches _ _ hsame)
  | scalar => exact hf _ _ .scalar
  | sequence hitems => exact hf _ _ (.sequence hitems)
  | mapping hentries => exact hf _ _ (.mapping hentries)

/-- Keys that are alike have the same text. -/
theorem writes_of_alike (hmatches : Matches same d d') (h : key.Alike same value) (name : String) :
    d'.writes name value = d.writes name key := by
  refine content_of_alike (f := fun node => node.text? == some name) (fun _ _ h => ?_) hmatches h
  cases h <;> rfl

/-- Keys that are alike name the same field. -/
theorem names_of_alike (hmatches : Matches same d d') (h : key.Alike same value)
    (fields : List String) (field : String) :
    d'.names fields field value = d.names fields field key := by
  refine content_of_alike (f := fun node => node.data?.any (Untyped.names fields field))
    (fun _ _ h => ?_) hmatches h
  cases h <;> rfl

end

end Document

end Yaml

end CollectorTemplate
