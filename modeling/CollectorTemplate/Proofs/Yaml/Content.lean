/-
What stands in a document that was read.

Reading goes from nodes to data.  Backwards, data that were read tell what nodes they were read
from: an alias for the node of its anchor, a mapping entry by entry, a text for a scalar of the same
characters, and a part of a record for the entry of its field.

* `Takes` : how a part of a record comes from the source of one field;
* `Document.content` : the node that a node stands for;
* `Document.Means` : the data that a node is read as, however many aliases were followed before;
* `Document.Means.cases` : what node data were read from;
* `Document.entry?`, `Document.field?` : the node of a field, in a record that is read directly and
  in one that is read as data first;
* `Document.record_takes`, `Untyped.record_takes` : what a record takes up from its fields.
-/
import CollectorTemplate.Monitoring.Manifest
import CollectorTemplate.Proofs.Yaml.Cursor
import Mathlib.Data.List.Forall2

namespace CollectorTemplate

/-! ### Fields of records -/

/-- How a part of a record comes from the source of one field: it stays as it is where the field is
not written, and else it is what one step, `took`, made of the source. -/
def Takes {α β γ : Type} (part : α → β) (took : γ → α → α → Prop) (record record' : α) :
    Option γ → Prop
  | none => part record' = part record
  | some source => ∃ before after, took source before after ∧ part before = part record ∧
      part record' = part after

/-- A step that leaves the part alone can be put in front. -/
theorem Takes.of_same {α β γ : Type} {part : α → β} {took : γ → α → α → Prop}
    {record next record' : α} {source : Option γ} (h : Takes part took next record' source)
    (hsame : part next = part record) : Takes part took record record' source := by
  cases source with
  | none => exact h.trans hsame
  | some source =>
    obtain ⟨before, after, htook, hbefore, hafter⟩ := h
    exact ⟨before, after, htook, hbefore.trans hsame, hafter⟩

/-- After the step of the field nothing is taken up any more. -/
theorem Takes.of_step {α β γ : Type} {part : α → β} {took : γ → α → α → Prop}
    {record next record' : α} {source : γ} (hstep : took source record next)
    (h : Takes part took next record' none) : Takes part took record record' (some source) :=
  ⟨record, next, hstep, rfl, h⟩

namespace Untyped

/-- Data that hold no other data. -/
def IsLeaf : Untyped → Prop
  | .sequence _ | .mapping _ | .tagged .. => False
  | _ => True

/-- Whether a key names a field of a record. -/
def names (fields : List String) (field : String) (key : Untyped) : Bool :=
  match fieldOf fields key with
  | .ok (some name) => name == field
  | _ => false

theorem fieldOf_of_names {fields : List String} {field : String} {key : Untyped}
    (h : names fields field key = true) : fieldOf fields key = .ok (some field) := by
  unfold names at h
  split at h
  · rename_i found hfound
    rw [hfound, eq_of_beq h]
  · exact absurd h Bool.false_ne_true

/-- A text names the field that it is the name of. -/
theorem names_string {fields : List String} {field : String} (h : field ∈ fields) (name : String) :
    names fields field (.string name) = (name == field) := by
  rw [names, fieldOf]
  cases hfound : fields.find? (· == name) with
  | none =>
    have hne : name ≠ field := by
      rintro rfl
      exact absurd (List.find?_eq_none.mp hfound name h) (by simp)
    simp [hne]
  | some found =>
    obtain rfl : found = name := by simpa using List.find?_some hfound
    rfl

/-- The data of a field of a record. -/
def field? (fields : List String) (field : String) : Untyped → Option Untyped
  | .mapping entries => (entries.find? fun entry => names fields field entry.1).map (·.2)
  | .sequence items => ((fields.zip items).find? fun item => item.1 == field).map (·.2)
  | _ => none

section

variable {α β : Type} {fields : List String} {field : String} {part : α → β}
  {read : α → String → Untyped → Except Complaint α}

theorem recordEntries_takes
    (hother : ∀ record name data record', name ≠ field → read record name data = .ok record' →
      part record' = part record)
    {seen : List String} {record record' : α} {entries : List (Untyped × Untyped)}
    (h : recordEntries fields read seen record entries = .ok record') :
    Takes part (fun data before after => read before field data = .ok after) record record'
        ((entries.find? fun entry => names fields field entry.1).map (·.2)) ∧
      (field ∈ seen → (entries.find? fun entry => names fields field entry.1) = none) := by
  induction entries generalizing seen record with
  | nil =>
    rw [← Except.ok.inj h]
    exact ⟨rfl, fun _ => rfl⟩
  | cons entry rest ih =>
    obtain ⟨key, value⟩ := entry
    rw [recordEntries] at h
    obtain ⟨name, hname, h⟩ := bind_eq_ok.mp h
    cases name with
    | none =>
      rw [List.find?_cons_of_neg (by simp [names, hname])]
      exact ih h
    | some name =>
      have hnames : names fields field key = (name == field) := by rw [names, hname]
      -- A field is refused when it comes again, so its first entry is the only one.
      by_cases hseen : seen.contains name = true
      · simp only [hseen, if_true] at h
        nomatch h
      simp only [hseen] at h
      obtain ⟨next, hnext, h⟩ := bind_eq_ok.mp h
      obtain ⟨htakes, hnone⟩ := ih h
      by_cases hfield : name = field
      · subst hfield
        rw [List.find?_cons_of_pos (by simp [hnames])]
        rw [hnone List.mem_cons_self] at htakes
        exact ⟨.of_step hnext htakes, fun hmem => absurd (by simpa using hmem) hseen⟩
      · rw [List.find?_cons_of_neg (by simpa [hnames] using hfield)]
        exact ⟨htakes.of_same (hother record name value next hfield hnext),
          fun hmem => hnone (List.mem_cons_of_mem _ hmem)⟩

theorem recordItems_takes
    (hother : ∀ record name data record', name ≠ field → read record name data = .ok record' →
      part record' = part record)
    (hdistinct : fields.Nodup) {record record' : α} {items : List Untyped}
    (h : (fields.zip items).foldlM (fun record item => read record item.1 item.2) record =
      .ok record') :
    Takes part (fun data before after => read before field data = .ok after) record record'
      (((fields.zip items).find? fun item => item.1 == field).map (·.2)) := by
  induction fields generalizing items record with
  | nil =>
    rw [← Except.ok.inj h]
    exact rfl
  | cons name fields ih =>
    cases items with
    | nil =>
      rw [← Except.ok.inj h]
      exact rfl
    | cons value items =>
      rw [List.zip_cons_cons] at h ⊢
      rw [List.foldlM_cons] at h
      obtain ⟨next, hnext, h⟩ := bind_eq_ok.mp h
      obtain ⟨hfresh, hdistinct⟩ := List.nodup_cons.mp hdistinct
      have htakes := ih hdistinct h
      by_cases hfield : name = field
      · -- The fields behind have other names.
        subst hfield
        have hnone : ((fields.zip items).find? fun item => item.1 == name) = none := by
          refine List.find?_eq_none.mpr fun item hitem heq => hfresh ?_
          obtain rfl : item.1 = name := by simpa using heq
          exact (List.of_mem_zip hitem).1
        rw [List.find?_cons_of_pos (by simp)]
        rw [hnone] at htakes
        exact .of_step hnext htakes
      · rw [List.find?_cons_of_neg (by simpa using hfield)]
        exact htakes.of_same (hother record name value next hfield hnext)

variable (field part) in
/-- A part of a record comes from the data of its field, if other fields leave it alone. -/
theorem record_takes
    (hother : ∀ record name data record', name ≠ field → read record name data = .ok record' →
      part record' = part record)
    (hdistinct : fields.Nodup) {name : String} {blank record' : α} {data : Untyped}
    (h : record name fields blank read data = .ok record') :
    Takes part (fun data before after => read before field data = .ok after) blank record'
      (data.field? fields field) := by
  unfold record at h
  split at h
  · exact (recordEntries_takes hother h).1
  · rename_i items
    rw [recordItems] at h
    obtain ⟨filled, hfilled, h⟩ := bind_eq_ok.mp h
    obtain rfl : filled = record' := by
      split at h
      · nomatch h
      · exact Except.ok.inj h
    exact recordItems_takes hother hdistinct hfilled
  · nomatch h

end

end Untyped

namespace Yaml

/-! ### The content of nodes -/

/-- A step of reading gives a result through the results of its parts. -/
theorem reads_bind {α β : Type} {x : Reads α} {f : α → Reads β} {before after : Nat} {b : β}
    (h : (x >>= f).run before = .ok (b, after)) :
    ∃ a between, x.run before = .ok (a, between) ∧ (f a).run between = .ok (b, after) := by
  rw [StateT.run_bind] at h
  obtain ⟨⟨a, between⟩, hx, hf⟩ := bind_eq_ok.mp h
  exact ⟨a, between, hx, hf⟩

/-- A step of reading goes on with what its first part gave. -/
theorem run_bind_of_ok {α β : Type} {x : Reads α} {f : α → Reads β} {before between : Nat} {a : α}
    (h : x.run before = .ok (a, between)) : (x >>= f).run before = (f a).run between := by
  rw [StateT.run_bind, h]
  rfl

/-- A scalar is read as the same data, without others in it, whatever is expected of it. -/
theorem meaningData_eq_ok {expected : String} {text : List Char} {meaning : Scalar.Meaning}
    {data : Untyped} (h : meaningData expected text meaning = .ok data) :
    (∀ other, meaningData other text meaning = .ok data) ∧ data.IsLeaf := by
  cases meaning with
  | natural n =>
    rw [meaningData] at h
    split at h
    · rename_i hn
      obtain rfl := Except.ok.inj h
      exact ⟨fun _ => if_pos hn, trivial⟩
    · cases h
  | negative n =>
    rw [meaningData] at h
    split at h
    · rename_i hn
      obtain rfl := Except.ok.inj h
      exact ⟨fun _ => if_pos hn, trivial⟩
    · cases h
  | _ =>
    obtain rfl := Except.ok.inj h
    exact ⟨fun _ => rfl, trivial⟩

namespace Node

/-- The entries of a mapping; other nodes have none. -/
def pairs : Node → List (Node × Node)
  | .mapping _ _ entries => entries
  | _ => []

/-- The characters of a scalar. -/
def text? : Node → Option String
  | .scalar _ _ _ text => some (String.ofList text)
  | _ => none

/-- The data that a scalar is read as. -/
def data? : Node → Option Untyped
  | .scalar _ tag style text =>
    ((scalarMeaning tag style text).bind (meaningData Strictness.buffer.expected text)).toOption
  | _ => none

/-- The name in the tag of a node. -/
def localName? : Node → Option String
  | .scalar _ tag _ _ | .sequence _ tag _ | .mapping _ tag _ => tag.bind (·.localName?)
  | _ => none

theorem data?_eq_some {node : Node} {data : Untyped} (h : node.data? = some data) :
    ∃ place tag style text meaning, node = .scalar place tag style text ∧
      meaningData Strictness.buffer.expected text meaning = .ok data := by
  cases node with
  | scalar place tag style text =>
    rw [data?] at h
    cases hmeaning : scalarMeaning tag style text with
    | error cause =>
      rw [hmeaning] at h
      nomatch h
    | ok meaning =>
      rw [hmeaning] at h
      change (meaningData _ text meaning).toOption = _ at h
      cases hvalue : meaningData Strictness.buffer.expected text meaning with
      | error cause =>
        rw [hvalue] at h
        nomatch h
      | ok value =>
        rw [hvalue] at h
        obtain rfl := Option.some.inj h
        exact ⟨place, tag, style, text, meaning, rfl, hvalue⟩
  | _ => nomatch h

/-- A scalar that is read as a text is read as its characters. -/
theorem text?_of_data? {node : Node} {text : String} (h : node.data? = some (.string text)) :
    node.text? = some text := by
  obtain ⟨place, tag, style, chars, meaning, rfl, hmeaning⟩ := data?_eq_some h
  cases meaning with
  | string => exact congrArg some (Untyped.string.inj (Except.ok.inj hmeaning))
  | natural n =>
    rw [meaningData] at hmeaning
    split at hmeaning <;> nomatch hmeaning
  | negative n =>
    rw [meaningData] at hmeaning
    split at hmeaning <;> nomatch hmeaning
  | _ => nomatch hmeaning

/-- A scalar is not read as a collection. -/
theorem not_collection_of_data? {node : Node} {data : Untyped} (h : node.data? = some data) :
    (∀ items, data ≠ .sequence items) ∧ ∀ entries, data ≠ .mapping entries := by
  obtain ⟨place, tag, style, chars, meaning, -, hmeaning⟩ := data?_eq_some h
  obtain ⟨-, hleaf⟩ := meaningData_eq_ok hmeaning
  refine ⟨?_, ?_⟩
  · rintro items rfl
    exact hleaf
  · rintro entries rfl
    exact hleaf

end Node

/-- What comes of a node whose tag has a name and whose content is read by `content`. -/
def Strictness.tagged (s : Strictness) (name : Option String) (place : Mark) (path : Path)
    (content : Reads Untyped) : Reads Untyped :=
  match name with
  | none => content
  | some name =>
    if s.keepsTags then return .tagged name (← content)
    else throw (.complaint .tagRefused place path)

/-- The reader of data that get a type later reads a content only where the tag has no name. -/
theorem Strictness.buffer_tagged_eq_ok {name : Option String} {place : Mark} {path : Path}
    {content : Reads Untyped} {before : Nat} {result : Untyped × Nat}
    (h : (Strictness.buffer.tagged name place path content).run before = .ok result) :
    name = none ∧ content.run before = .ok result := by
  cases name with
  | none => exact ⟨rfl, h⟩
  | some name => nomatch h

namespace Document

/-- Reads a node that is no alias as if its tag had no name. -/
def untagged (d : Document) (s : Strictness) (depth : Nat) (path : Path) (node : Node) :
    Reads Untyped :=
  match node with
  | .broken cause => throw (.broken cause)
  | .reference place _ => throw (.broken (.unknownAnchor place))
  | .scalar place tag style text =>
    match (scalarMeaning (if node.localName?.isSome then none else tag) style text).bind
        (meaningData s.expected text) with
    | .ok value => return value
    | .error cause => throw (.complaint cause place path)
  | .sequence place _ nodes =>
    match depth with
    | 0 => throw (.recursionLimit place)
    | depth + 1 => return .sequence (← items (untyped d s depth) path 0 nodes)
  | .mapping place _ pairs =>
    match depth with
    | 0 => throw (.recursionLimit place)
    | depth + 1 => return .mapping (← entries s (untyped d s depth) place path [] pairs)

/-- Reading follows an alias, then looks at the tag, and then at the content. -/
theorem untyped_eq (d : Document) (s : Strictness) (depth : Nat) (path : Path) (node : Node) :
    d.untyped s depth path node = d.target node path >>= fun r =>
      s.tagged r.1.localName? r.1.place r.2 (d.untagged s depth r.2 r.1) := by
  unfold untyped
  refine bind_congr fun r => ?_
  obtain ⟨node, path⟩ := r
  cases node with
  | scalar | reference | broken => rfl
  | sequence | mapping =>
    cases depth with
    | zero => rfl
    | succ depth => rfl

variable (d : Document)

/-- What a node that is no alias is read as, as if its tag had no name: a scalar as what it means,
and a collection as what the nodes in it are read as, one level further in. -/
inductive ReadAs (s : Strictness) (path : Path) (before : Nat) :
    Nat → Node → Untyped → Nat → Prop
  | scalar {depth : Nat} {place : Mark} {tag : Option TagText} {style : Style} {text : List Char}
      {data : Untyped}
      (hmeaning : (scalarMeaning
          (if (Node.scalar place tag style text).localName?.isSome then none else tag) style
          text).bind (meaningData s.expected text) = .ok data) :
      ReadAs s path before depth (.scalar place tag style text) data before
  | sequence {depth : Nat} {place : Mark} {tag : Option TagText} {nodes : List Node}
      {items : List Untyped} {after : Nat}
      (hitems : (Document.items (d.untyped s depth) path 0 nodes).run before = .ok (items, after)) :
      ReadAs s path before (depth + 1) (.sequence place tag nodes) (.sequence items) after
  | mapping {depth : Nat} {place : Mark} {tag : Option TagText} {pairs : List (Node × Node)}
      {entries : List (Untyped × Untyped)} {after : Nat}
      (hentries : (Document.entries s (d.untyped s depth) place path [] pairs).run before =
        .ok (entries, after)) :
      ReadAs s path before (depth + 1) (.mapping place tag pairs) (.mapping entries) after

variable {d} in
theorem untagged_eq_ok_iff {s : Strictness} {depth : Nat} {path : Path} {node : Node}
    {data : Untyped} {before after : Nat} :
    (d.untagged s depth path node).run before = .ok (data, after) ↔
      d.ReadAs s path before depth node data after := by
  constructor
  · intro h
    cases node with
    | broken cause => nomatch h
    | reference place number => nomatch h
    | scalar place tag style text =>
      unfold untagged at h
      dsimp only at h
      split at h
      · rename_i hmeaning
        obtain ⟨rfl, rfl⟩ := Prod.mk.inj (Except.ok.inj h)
        exact .scalar hmeaning
      · nomatch h
    | sequence place tag nodes =>
      cases depth with
      | zero => nomatch h
      | succ depth =>
        obtain ⟨items, between, hitems, h⟩ := reads_bind h
        obtain ⟨rfl, rfl⟩ := Prod.mk.inj (Except.ok.inj h)
        exact .sequence hitems
    | mapping place tag pairs =>
      cases depth with
      | zero => nomatch h
      | succ depth =>
        obtain ⟨entries, between, hentries, h⟩ := reads_bind h
        obtain ⟨rfl, rfl⟩ := Prod.mk.inj (Except.ok.inj h)
        exact .mapping hentries
  · rintro (hmeaning | hitems | hentries)
    · unfold untagged
      dsimp only
      rw [hmeaning]
      rfl
    · exact run_bind_of_ok hitems
    · exact run_bind_of_ok hentries

/-- The node that a node stands for: an alias stands for the node of its anchor. -/
def content : Node → Node
  | .reference _ number => (d.anchors.lookup number).getD (.broken (.unknownAnchor {}))
  | node => node

variable {d} {path path' : Path} {node node' : Node} {before after : Nat}

theorem follow_eq {number : Nat} {found : Node}
    (h : (d.follow number).run before = .ok (found, after)) :
    found = (d.anchors.lookup number).getD (.broken (.unknownAnchor {})) := by
  unfold follow at h
  obtain ⟨jumps, between, -, h⟩ := reads_bind h
  obtain ⟨-, between, -, h⟩ := reads_bind h
  split at h
  · nomatch h
  · exact (Prod.mk.inj (Except.ok.inj h)).1.symm

theorem target_eq (h : (d.target node path).run before = .ok ((node', path'), after)) :
    node' = d.content node := by
  cases node with
  | reference place number =>
    obtain ⟨found, between, hfound, h⟩ := reads_bind h
    obtain ⟨rfl, -⟩ := Prod.mk.inj (Prod.mk.inj (Except.ok.inj h)).1
    exact follow_eq hfound
  | _ =>
    obtain ⟨rfl, -⟩ := Prod.mk.inj (Prod.mk.inj (Except.ok.inj h)).1
    rfl

theorem text_eq {expected : String} {chars : List Char}
    (h : (d.text expected path node).run before = .ok (chars, after)) :
    (d.content node).text? = some (String.ofList chars) := by
  unfold text at h
  obtain ⟨⟨node', path'⟩, between, htarget, h⟩ := reads_bind h
  rw [← target_eq htarget]
  cases node' with
  | scalar place tag style text' =>
    obtain ⟨rfl, -⟩ := Prod.mk.inj (Except.ok.inj h)
    rfl
  | _ => nomatch h

/-- What was read of a document was read from its root. -/
theorem decode_eq_ok {α : Type} {missing : Except ReadError α} {read : Node → Reads α} {value : α}
    (h : d.decode missing read = .ok value) :
    (d.root = none ∧ missing = .ok value) ∨
      ∃ root after, d.root = some root ∧ (read root).run 0 = .ok (value, after) := by
  unfold decode at h
  rcases hroot : d.root with _ | root <;> simp only [hroot] at h <;>
    obtain ⟨value', hvalue, hend⟩ := bind_eq_ok.mp h <;>
    obtain rfl : value' = value := by
      split at hend
      · cases hend
      split at hend
      · cases hend
      · exact Except.ok.inj hend
  · exact .inl ⟨rfl, hvalue⟩
  · change ((read root).run 0).map (·.1) = _ at hvalue
    cases hrun : (read root).run 0 with
    | error e =>
      rw [hrun] at hvalue
      cases hvalue
    | ok result =>
      rw [hrun] at hvalue
      obtain rfl := Except.ok.inj hvalue
      exact .inr ⟨root, result.2, rfl, hrun⟩

/-- Nothing follows the root of a document that was read. -/
theorem ends_of_decode {α : Type} {missing : Except ReadError α} {read : Node → Reads α} {value : α}
    (h : d.decode missing read = .ok value) : d.tail = none ∧ d.more = false := by
  unfold decode at h
  rcases hroot : d.root with _ | root <;> simp only [hroot] at h <;>
    obtain ⟨_, -, hend⟩ := bind_eq_ok.mp h
  all_goals
    split at hend
    · cases hend
    rename_i htail
    split at hend
    · cases hend
    rename_i hmore
    exact ⟨htail, by simpa using hmore⟩

/-! ### What data were read from -/

variable (d) in
/-- The data that a node is read as. -/
def Means (node : Node) (data : Untyped) : Prop :=
  ∃ depth path before after, (d.untyped .buffer depth path node).run before = .ok (data, after)

theorem items_means {depth index : Nat} {nodes : List Node} {items : List Untyped}
    (h : (Document.items (d.untyped .buffer depth) path index nodes).run before =
      .ok (items, after)) : List.Forall₂ d.Means nodes items := by
  induction nodes generalizing index items before after with
  | nil =>
    obtain ⟨rfl, -⟩ := Prod.mk.inj (Except.ok.inj h)
    exact .nil
  | cons node nodes ih =>
    obtain ⟨item, between, hitem, h⟩ := reads_bind h
    obtain ⟨rest, between', hrest, h⟩ := reads_bind h
    obtain ⟨rfl, -⟩ := Prod.mk.inj (Except.ok.inj h)
    exact .cons ⟨_, _, _, _, hitem⟩ (ih hrest)

theorem entries_means {depth : Nat} {place : Mark} {seen : List Untyped}
    {pairs : List (Node × Node)} {entries : List (Untyped × Untyped)}
    (h : (Document.entries .buffer (d.untyped .buffer depth) place path seen pairs).run before =
      .ok (entries, after)) :
    List.Forall₂ (fun pair entry => d.Means pair.1 entry.1 ∧ d.Means pair.2 entry.2) pairs
      entries := by
  induction pairs generalizing seen entries before after with
  | nil =>
    obtain ⟨rfl, -⟩ := Prod.mk.inj (Except.ok.inj h)
    exact .nil
  | cons pair pairs ih =>
    obtain ⟨key, value⟩ := pair
    obtain ⟨k, between, hkey, h⟩ := reads_bind h
    obtain ⟨v, between', hvalue, h⟩ := reads_bind h
    obtain ⟨rest, between'', hrest, h⟩ := reads_bind h
    obtain ⟨rfl, -⟩ := Prod.mk.inj (Except.ok.inj h)
    exact .cons ⟨⟨_, _, _, _, hkey⟩, ⟨_, _, _, _, hvalue⟩⟩ (ih hrest)

/-- Data were read from a node whose tag has no name. -/
theorem Means.localName?_eq_none {data : Untyped} (h : d.Means node data) :
    (d.content node).localName? = none := by
  obtain ⟨depth, path, before, after, h⟩ := h
  rw [untyped_eq] at h
  obtain ⟨r, between, htarget, h⟩ := reads_bind h
  rw [← target_eq htarget]
  exact (Strictness.buffer_tagged_eq_ok h).1

/-- Data were read from a scalar, item by item from a sequence, or entry by entry from a mapping. -/
theorem Means.cases {data : Untyped} (h : d.Means node data) :
    (d.content node).data? = some data ∨
    (∃ place tag nodes items, d.content node = .sequence place tag nodes ∧
      data = .sequence items ∧ List.Forall₂ d.Means nodes items) ∨
    ∃ place tag pairs entries, d.content node = .mapping place tag pairs ∧
      data = .mapping entries ∧
      List.Forall₂ (fun pair entry => d.Means pair.1 entry.1 ∧ d.Means pair.2 entry.2) pairs
        entries := by
  obtain ⟨depth, path, before, after, h⟩ := h
  rw [untyped_eq] at h
  obtain ⟨⟨node', path'⟩, between, htarget, h⟩ := reads_bind h
  rw [← target_eq htarget]
  -- A tag of a program's own is refused, so the content is read as it stands.
  obtain ⟨hname, h⟩ := Strictness.buffer_tagged_eq_ok h
  cases untagged_eq_ok_iff.mp h with
  | scalar hmeaning =>
    left
    simp only [hname, Option.isSome_none, Bool.false_eq_true, if_false] at hmeaning
    rw [Node.data?, hmeaning]
    rfl
  | sequence hitems => exact .inr (.inl ⟨_, _, _, _, rfl, rfl, items_means hitems⟩)
  | mapping hentries => exact .inr (.inr ⟨_, _, _, _, rfl, rfl, entries_means hentries⟩)

/-- A text was read from a scalar of the same characters. -/
theorem Means.text {text : String} (h : d.Means node (.string text)) :
    (d.content node).text? = some text := by
  obtain hdata | ⟨_, _, _, _, -, hdata, -⟩ | ⟨_, _, _, _, -, hdata, -⟩ := h.cases
  · exact Node.text?_of_data? hdata
  · nomatch hdata
  · nomatch hdata

/-! ### Fields of documents -/

variable (d) in
/-- The node under a name in a record that is read directly. -/
def entry? (name : String) (record : Node) : Option Node :=
  ((d.content record).pairs.find? fun pair => (d.content pair.1).text? == some name).map (·.2)

variable (d) in
/-- Whether a node names a field, as a key of a record that is read as data first. -/
def names (fields : List String) (field : String) (key : Node) : Bool :=
  (d.content key).data?.any (Untyped.names fields field)

variable (d) in
/-- The node of a field in a record that is read as data first. -/
def field? (fields : List String) (field : String) (record : Node) : Option Node :=
  match d.content record with
  | .mapping _ _ pairs => (pairs.find? fun pair => d.names fields field pair.1).map (·.2)
  | .sequence _ _ nodes => ((fields.zip nodes).find? fun item => item.1 == field).map (·.2)
  | _ => none

theorem Means.names {key : Node} {data : Untyped} (h : d.Means key data) (fields : List String)
    (field : String) : d.names fields field key = data.names fields field := by
  obtain hdata | ⟨_, _, _, _, hkey, rfl, -⟩ | ⟨_, _, _, _, hkey, rfl, -⟩ := h.cases
  · rw [Document.names, hdata]
    rfl
  · rw [Document.names, hkey]
    rfl
  · rw [Document.names, hkey]
    rfl

/-- What is found first among entries that correspond corresponds. -/
theorem rel_find? {α β γ δ : Type} {same : α → β → Prop} {rel : γ → δ → Prop} {p : α → Bool}
    {q : β → Bool} {f : α → γ} {g : β → δ} {left : List α} {right : List β}
    (h : List.Forall₂ same left right) (hfound : ∀ a b, same a b → p a = q b)
    (hrel : ∀ a b, same a b → rel (f a) (g b)) :
    Option.Rel rel ((left.find? p).map f) ((right.find? q).map g) := by
  induction h with
  | nil => exact .none
  | @cons a b left right hab _ ih =>
    cases hq : q b with
    | true =>
      rw [List.find?_cons_of_pos (by rw [hfound a b hab, hq]), List.find?_cons_of_pos hq]
      exact .some (hrel a b hab)
    | false =>
      rw [List.find?_cons_of_neg (by simp [hfound a b hab, hq]),
        List.find?_cons_of_neg (by simp [hq])]
      exact ih

theorem forall₂_zip {α β γ : Type} {rel : β → γ → Prop} (names : List α) {left : List β}
    {right : List γ} (h : List.Forall₂ rel left right) :
    List.Forall₂ (fun a b => a.1 = b.1 ∧ rel a.2 b.2) (names.zip left) (names.zip right) := by
  induction h generalizing names with
  | nil => simp
  | cons head _ ih =>
    cases names with
    | nil => exact .nil
    | cons name names => exact .cons ⟨rfl, head⟩ (ih names)

/-- The field of data that were read was read from the node of the field. -/
theorem Means.field {data : Untyped} (h : d.Means node data) (fields : List String)
    (field : String) :
    Option.Rel d.Means (d.field? fields field node) (data.field? fields field) := by
  obtain hdata | ⟨_, _, nodes, items, hnode, rfl, hitems⟩ |
    ⟨_, _, pairs, entries, hnode, rfl, hentries⟩ := h.cases
  · have hnode : d.field? fields field node = none := by
      obtain ⟨_, _, _, _, _, hscalar, -⟩ := Node.data?_eq_some hdata
      rw [field?, hscalar]
    have hfield : data.field? fields field = none := by
      obtain ⟨hsequence, hmapping⟩ := Node.not_collection_of_data? hdata
      cases data with
      | sequence items => exact absurd rfl (hsequence items)
      | mapping entries => exact absurd rfl (hmapping entries)
      | _ => rfl
    rw [hnode, hfield]
    exact .none
  · rw [field?, hnode]
    exact rel_find? (forall₂_zip fields hitems) (fun a b hab => by rw [hab.1])
      fun a b hab => hab.2
  · rw [field?, hnode]
    exact rel_find? hentries (fun a b hab => hab.1.names fields field) fun a b hab => hab.2

/-! ### Records -/

theorem recordEntries_eq {name : String} {depth : Nat} {place : Mark} {pairs : List (Node × Node)}
    (h : (d.recordEntries name depth path node).run before = .ok ((place, path', pairs), after)) :
    pairs = (d.content node).pairs := by
  unfold recordEntries at h
  obtain ⟨⟨node', _⟩, between, htarget, h⟩ := reads_bind h
  rw [← target_eq htarget]
  cases node' with
  | mapping place' tag entries =>
    by_cases hdepth : depth = 0
    · simp only [hdepth, if_true] at h
      nomatch h
    · simp only [hdepth, if_false] at h
      exact (congrArg (·.2.2) (Prod.mk.inj (Except.ok.inj h)).1).symm
  | scalar place' tag style text =>
    by_cases hempty : style = .plain ∧ text = []
    · simp only [hempty, and_self, if_true] at h
      exact (congrArg (·.2.2) (Prod.mk.inj (Except.ok.inj h)).1).symm
    · simp only [hempty, if_false] at h
      split at h <;> nomatch h
  | _ => nomatch h

theorem blame_eq {α : Type} {place : Mark} {work : ExceptT Complaint Reads α} {value : α}
    (h : (blame place path work).run before = .ok (value, after)) :
    work.run.run before = .ok (.ok value, after) := by
  obtain ⟨result, between, hwork, h⟩ := reads_bind h
  cases result with
  | error cause => nomatch h
  | ok value' =>
    obtain ⟨rfl, rfl⟩ := Prod.mk.inj (Except.ok.inj h)
    exact hwork

theorem looseEntries_means {depth : Nat} {pairs : List (Node × Node)}
    {entries : List (Untyped × Untyped)}
    (h : (d.looseEntries depth path pairs).run before = .ok (entries, after)) :
    List.Forall₂ (fun pair entry => (∃ name, (d.content pair.1).text? = some name ∧
      entry.1 = .string name) ∧ d.Means pair.2 entry.2) pairs entries := by
  induction pairs generalizing entries before after with
  | nil =>
    obtain ⟨rfl, -⟩ := Prod.mk.inj (Except.ok.inj h)
    exact .nil
  | cons pair pairs ih =>
    obtain ⟨key, value⟩ := pair
    obtain ⟨name, between, hname, h⟩ := reads_bind h
    obtain ⟨data, between', hdata, h⟩ := reads_bind h
    obtain ⟨rest, between'', hrest, h⟩ := reads_bind h
    obtain ⟨rfl, -⟩ := Prod.mk.inj (Except.ok.inj h)
    exact .cons ⟨⟨_, text_eq hname, rfl⟩, ⟨_, _, _, _, hdata⟩⟩ (ih hrest)

/-- A record that becomes data first is what the data of its entries give, and each of its fields
was read from the node under the field's name. -/
theorem loose_eq {α : Type} {name : String} {read : Untyped → Except Complaint α} {depth : Nat}
    {value : α} (h : (d.loose name read depth path node).run before = .ok (value, after)) :
    ∃ data, read data = .ok value ∧ ∀ fields : List String, ∀ field ∈ fields,
      Option.Rel d.Means (d.entry? field node) (data.field? fields field) := by
  unfold loose at h
  obtain ⟨⟨place, path', pairs⟩, between, hpairs, h⟩ := reads_bind h
  obtain rfl := recordEntries_eq hpairs
  obtain ⟨entries, between', hentries, h⟩ := reads_bind h
  refine ⟨.mapping entries, ?_, fun fields field hfield => ?_⟩
  · exact (Prod.mk.inj (Except.ok.inj (blame_eq h))).1
  · refine rel_find? (looseEntries_means hentries) (fun pair entry hpair => ?_)
      fun pair entry hpair => hpair.2
    obtain ⟨⟨name, htext, hkey⟩, -⟩ := hpair
    rw [htext, hkey, Untyped.names_string hfield]
    rfl

section

variable {α β : Type} {fields : List String} {field : String} {part : α → β}
  {read : α → String → Path → Node → ExceptT Complaint Reads α}

theorem fillRecord_takes (hfield : field ∈ fields)
    (hother : ∀ record name path node record' before after, name ≠ field →
      (read record name path node).run.run before = .ok (.ok record', after) →
      part record' = part record)
    {place : Mark} {seen : List String} {record record' : α} {pairs : List (Node × Node)}
    (h : (d.fillRecord fields read place path seen record pairs).run before =
      .ok (record', after)) :
    Takes part (fun node r r' => ∃ path before after,
        (read r field path node).run.run before = .ok (.ok r', after)) record record'
        ((pairs.find? fun pair => (d.content pair.1).text? == some field).map (·.2)) ∧
      (field ∈ seen → (pairs.find? fun pair => (d.content pair.1).text? == some field) = none) := by
  induction pairs generalizing seen record before after with
  | nil =>
    obtain ⟨rfl, -⟩ := Prod.mk.inj (Except.ok.inj h)
    exact ⟨rfl, fun _ => rfl⟩
  | cons pair rest ih =>
    obtain ⟨key, value⟩ := pair
    rw [fillRecord] at h
    obtain ⟨chars, between, hchars, h⟩ := reads_bind h
    have htext := text_eq hchars
    by_cases hknown : fields.contains (String.ofList chars) = true
    · by_cases hseen : seen.contains (String.ofList chars) = true
      · simp only [hknown, hseen, if_true] at h
        nomatch h
      simp only [hknown, hseen, if_true] at h
      obtain ⟨next, between', hnext, h⟩ := reads_bind h
      have hread := blame_eq hnext
      obtain ⟨htakes, hnone⟩ := ih h
      by_cases hname : String.ofList chars = field
      · subst hname
        rw [List.find?_cons_of_pos (by simp [htext])]
        rw [hnone List.mem_cons_self] at htakes
        exact ⟨.of_step ⟨_, _, _, hread⟩ htakes, fun hmem => absurd (by simpa using hmem) hseen⟩
      · rw [List.find?_cons_of_neg (by simpa [htext] using hname)]
        exact ⟨htakes.of_same (hother _ _ _ _ _ _ _ hname hread),
          fun hmem => hnone (List.mem_cons_of_mem _ hmem)⟩
    · have hname : String.ofList chars ≠ field := by
        rintro rfl
        exact hknown (by simpa using hfield)
      simp only [hknown] at h
      rw [List.find?_cons_of_neg (by simpa [htext] using hname)]
      cases hbroken : value.breakage? with
      | some cause =>
        rw [hbroken] at h
        nomatch h
      | none =>
        rw [hbroken] at h
        exact ih h

variable (field part) in
/-- A part of a record comes from the node under the name of its field, if other fields leave it
alone. -/
theorem record_takes (hfield : field ∈ fields)
    (hother : ∀ record name path node record' before after, name ≠ field →
      (read record name path node).run.run before = .ok (.ok record', after) →
      part record' = part record)
    {name : String} {blank record' : α} {depth : Nat}
    (h : (d.record name fields blank read depth path node).run before = .ok (record', after)) :
    Takes part (fun node r r' => ∃ path before after,
      (read r field path node).run.run before = .ok (.ok r', after)) blank record'
      (d.entry? field node) := by
  unfold record at h
  obtain ⟨⟨place, path', pairs⟩, between, hpairs, h⟩ := reads_bind h
  obtain rfl := recordEntries_eq hpairs
  exact (fillRecord_takes hfield hother h).1

end

end Document

end Yaml

end CollectorTemplate
