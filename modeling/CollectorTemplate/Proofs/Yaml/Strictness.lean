/-
Strict and lenient reading.

Nodes are read as data in two ways.  The reader of data that get a type later refuses tags and lets
keys repeat; the reader of values in their own right keeps tags and refuses keys that repeat.  What
the first can read has no tags to keep, so both go over it in step, and only a repeated key parts
them.  What the second can read the first can read too, unless there are tags in it.

* `Untyped.Repeats` : a key comes twice in a mapping somewhere in data;
* `Follows` : how a strict step ends beside a lenient one;
* `Document.followsAt` : the strict reading of a node follows the lenient one, by induction on the
  depth of nesting;
* `Document.value_of_buffer` : whole documents;
* `Untyped.HoldsTag` : a tag stands somewhere in data;
* `Document.lenientAt`, `Document.taglessAt` : what is read strictly can be read leniently if it
  holds no tag, and only then.
-/
import CollectorTemplate.Proofs.Conversion
import CollectorTemplate.Proofs.Yaml.Content
import CollectorTemplate.Proofs.Yaml.Node

namespace CollectorTemplate

/-! ### Repeated keys -/

namespace Untyped

/-- A key comes again among keys. -/
def RepeatedIn (keys : List Untyped) (key : Untyped) : Prop :=
  ∃ other, [key, other].Sublist keys ∧ key.sameKey other = true

/-- A key comes twice in a mapping somewhere in data. -/
def Repeats (data key : Untyped) : Prop :=
  ∃ entries, PartOf (.mapping entries) data ∧ RepeatedIn (entries.map Prod.fst) key

variable {data key : Untyped}

theorem not_repeatedIn_nil : ¬RepeatedIn [] key := by
  rintro ⟨other, hsublist, -⟩
  nomatch hsublist

theorem RepeatedIn.append {keys : List Untyped} (h : RepeatedIn keys key) (more : List Untyped) :
    RepeatedIn (keys ++ more) key := by
  obtain ⟨other, hsublist, hsame⟩ := h
  exact ⟨other, hsublist.trans (List.sublist_append_left _ _), hsame⟩

/-- A key that is put behind others is repeated there if it is the same as one of them. -/
theorem repeatedIn_concat {keys : List Untyped} {last : Untyped} :
    RepeatedIn (keys ++ [last]) key ↔
      RepeatedIn keys key ∨ key ∈ keys ∧ key.sameKey last = true := by
  constructor
  · rintro ⟨other, hsublist, hsame⟩
    obtain ⟨front, back, heq, hfront, hback⟩ := List.sublist_append_iff.mp hsublist
    -- The second of the two keys is the last of all, or both are among the others.
    rcases front with _ | ⟨first, _ | ⟨second, front⟩⟩
    · rw [List.nil_append] at heq
      exact absurd (heq ▸ hback).length_le (by simp)
    · obtain ⟨rfl, rfl⟩ : key = first ∧ [other] = back := List.cons.inj heq
      obtain rfl := List.mem_singleton.mp (List.singleton_sublist.mp hback)
      exact .inr ⟨List.singleton_sublist.mp hfront, hsame⟩
    · obtain ⟨rfl, htail⟩ : key = first ∧ [other] = second :: (front ++ back) :=
        List.cons.inj heq
      obtain ⟨rfl, -⟩ := List.cons.inj htail
      exact .inl ⟨other, (List.sublist_append_left _ front).trans hfront, hsame⟩
  · rintro (⟨other, hsublist, hsame⟩ | ⟨hkey, hsame⟩)
    · exact RepeatedIn.append ⟨other, hsublist, hsame⟩ [last]
    · exact ⟨last, (List.singleton_sublist.mpr hkey).append (.refl [last]), hsame⟩

/-- Nothing is repeated where nothing is held. -/
theorem IsLeaf.not_repeats (h : data.IsLeaf) : ¬data.Repeats key := by
  rintro ⟨entries, hpart, -⟩
  cases hpart with
  | self => exact h
  | tagged => exact h
  | item => exact h
  | key => exact h
  | value => exact h

theorem repeats_sequence {items : List Untyped} :
    Repeats (.sequence items) key ↔ ∃ item ∈ items, item.Repeats key := by
  constructor
  · rintro ⟨entries, hpart, hrepeated⟩
    cases hpart with
    | item hitem hpart => exact ⟨_, hitem, entries, hpart, hrepeated⟩
  · rintro ⟨item, hitem, entries, hpart, hrepeated⟩
    exact ⟨entries, .item hitem hpart, hrepeated⟩

theorem repeats_mapping {entries : List (Untyped × Untyped)} :
    Repeats (.mapping entries) key ↔
      (∃ entry ∈ entries, entry.1.Repeats key ∨ entry.2.Repeats key) ∨
        RepeatedIn (entries.map Prod.fst) key := by
  constructor
  · rintro ⟨inner, hpart, hrepeated⟩
    cases hpart with
    | self => exact .inr hrepeated
    | key hentry hpart => exact .inl ⟨_, hentry, .inl ⟨inner, hpart, hrepeated⟩⟩
    | value hentry hpart => exact .inl ⟨_, hentry, .inr ⟨inner, hpart, hrepeated⟩⟩
  · rintro (⟨entry, hentry, ⟨inner, hpart, hrepeated⟩ | ⟨inner, hpart, hrepeated⟩⟩ | hrepeated)
    · exact ⟨inner, .key hentry hpart, hrepeated⟩
    · exact ⟨inner, .value hentry hpart, hrepeated⟩
    · exact ⟨entries, .self, hrepeated⟩

/-! ### Tags -/

/-- A tag stands somewhere in data. -/
def HoldsTag (data : Untyped) : Prop := ∃ tag value, PartOf (.tagged tag value) data

theorem holdsTag_tagged (tag : String) (value : Untyped) : HoldsTag (.tagged tag value) :=
  ⟨tag, value, .self⟩

theorem IsLeaf.not_holdsTag (h : data.IsLeaf) : ¬data.HoldsTag := by
  rintro ⟨tag, value, hpart⟩
  cases hpart with
  | self => exact h
  | tagged => exact h
  | item => exact h
  | key => exact h
  | value => exact h

theorem holdsTag_sequence {items : List Untyped} :
    HoldsTag (.sequence items) ↔ ∃ item ∈ items, item.HoldsTag := by
  constructor
  · rintro ⟨tag, value, hpart⟩
    cases hpart with
    | item hitem hpart => exact ⟨_, hitem, tag, value, hpart⟩
  · rintro ⟨item, hitem, tag, value, hpart⟩
    exact ⟨tag, value, .item hitem hpart⟩

theorem holdsTag_mapping {entries : List (Untyped × Untyped)} :
    HoldsTag (.mapping entries) ↔ ∃ entry ∈ entries, entry.1.HoldsTag ∨ entry.2.HoldsTag := by
  constructor
  · rintro ⟨tag, value, hpart⟩
    cases hpart with
    | key hentry hpart => exact ⟨_, hentry, .inl ⟨tag, value, hpart⟩⟩
    | value hentry hpart => exact ⟨_, hentry, .inr ⟨tag, value, hpart⟩⟩
  · rintro ⟨entry, hentry, ⟨tag, value, hpart⟩ | ⟨tag, value, hpart⟩⟩
    · exact ⟨tag, value, .key hentry hpart⟩
    · exact ⟨tag, value, .value hentry hpart⟩

end Untyped

namespace Yaml

open Untyped (RepeatedIn Repeats)

/-! ### Steps -/

/-- A strict step ends as a lenient one did, if no key is repeated, and otherwise with a complaint
about one that is. -/
def Follows {α : Type} (repeated : Untyped → Prop) (strict : Reads α) (before : Nat)
    (result : α × Nat) : Prop :=
  (strict.run before = .ok result ∧ ∀ key, ¬repeated key) ∨
    ∃ key place path, repeated key ∧
      strict.run before = .error (.complaint (.duplicateKey key) place path)

namespace Follows

variable {α β : Type} {repeated repeated' : Untyped → Prop} {strict : Reads α} {next : α → Reads β}
  {before between after : Nat} {a : α} {b : β}

theorem of_run (h : strict.run before = .ok (a, after)) :
    Follows (fun _ => False) strict before (a, after) := .inl ⟨h, fun _ => id⟩

theorem of_iff (h : Follows repeated strict before (a, after))
    (hiff : ∀ key, repeated key ↔ repeated' key) : Follows repeated' strict before (a, after) := by
  rcases h with ⟨hrun, hnone⟩ | ⟨key, place, path, hkey, hrun⟩
  · exact .inl ⟨hrun, fun key hkey => hnone key ((hiff key).mpr hkey)⟩
  · exact .inr ⟨key, place, path, (hiff key).mp hkey, hrun⟩

/-- One step after another. -/
theorem bind (h : Follows repeated strict before (a, between))
    (hnext : Follows repeated' (next a) between (b, after)) :
    Follows (fun key => repeated key ∨ repeated' key) (strict >>= next) before (b, after) := by
  rcases h with ⟨hrun, hnone⟩ | ⟨key, place, path, hkey, hrun⟩
  · have hbind : (strict >>= next).run before = (next a).run between := by
      rw [StateT.run_bind, hrun]
      rfl
    rcases hnext with ⟨hrun', hnone'⟩ | ⟨key, place, path, hkey, hrun'⟩
    · exact .inl ⟨hbind.trans hrun', fun key hkey => hkey.elim (hnone key) (hnone' key)⟩
    · exact .inr ⟨key, place, path, .inr hkey, hbind.trans hrun'⟩
  · refine .inr ⟨key, place, path, .inl hkey, ?_⟩
    rw [StateT.run_bind, hrun]
    rfl

end Follows

/-! ### Nodes -/

namespace Document

variable {d : Document} {path : Path} {before after : Nat}

/-- The strict reading of a node follows the lenient one at a depth. -/
def FollowsAt (d : Document) (depth : Nat) : Prop :=
  ∀ path node before data after,
    (d.untyped .buffer depth path node).run before = .ok (data, after) →
      Follows data.Repeats (d.untyped .value depth path node) before (data, after)

theorem follows_items {depth : Nat} (hdepth : d.FollowsAt depth) {index : Nat} {nodes : List Node}
    {items : List Untyped}
    (h : (Document.items (d.untyped .buffer depth) path index nodes).run before =
      .ok (items, after)) :
    Follows (fun key => ∃ item ∈ items, item.Repeats key)
      (Document.items (d.untyped .value depth) path index nodes) before (items, after) := by
  induction nodes generalizing index items before with
  | nil =>
    obtain ⟨rfl, rfl⟩ := Prod.mk.inj (Except.ok.inj h)
    exact (Follows.of_run rfl).of_iff (by simp)
  | cons node nodes ih =>
    obtain ⟨item, between, hitem, h⟩ := reads_bind h
    obtain ⟨rest, between', hrest, h⟩ := reads_bind h
    obtain ⟨rfl, rfl⟩ := Prod.mk.inj (Except.ok.inj h)
    refine ((hdepth _ _ _ _ _ hitem).bind ((ih hrest).bind (.of_run rfl))).of_iff fun key => ?_
    simp

/-- The strict reading of an entry looks at the key before it reads the value. -/
theorem entries_value_cons (read : Path → Node → Reads Untyped) (place : Mark) (path : Path)
    (seen : List Untyped) (key value : Node) (pairs : List (Node × Node)) :
    Document.entries .value read place path seen ((key, value) :: pairs) =
      read path key >>= fun k =>
        match seen.find? fun other => other.sameKey k with
        | some first => throw (.complaint (.duplicateKey first) place path)
        | none => do
          let v ← read (valuePath path key) value
          return (k, v) :: (← Document.entries .value read place path (seen ++ [k]) pairs) := by
  rw [Document.entries]
  refine bind_congr fun k => ?_
  cases seen.find? fun other => other.sameKey k with
  | some first => rfl
  | none => rfl

/-- Entries are followed as long as no key is repeated, in what was seen before or since. -/
theorem follows_entries {depth : Nat} (hdepth : d.FollowsAt depth) {place : Mark}
    {seen : List Untyped} (hseen : ∀ key, ¬RepeatedIn seen key) {pairs : List (Node × Node)}
    {entries : List (Untyped × Untyped)}
    (h : (Document.entries .buffer (d.untyped .buffer depth) place path seen pairs).run before =
      .ok (entries, after)) :
    Follows
      (fun key => (∃ entry ∈ entries, entry.1.Repeats key ∨ entry.2.Repeats key) ∨
        RepeatedIn (seen ++ entries.map Prod.fst) key)
      (Document.entries .value (d.untyped .value depth) place path seen pairs) before
      (entries, after) := by
  induction pairs generalizing seen entries before with
  | nil =>
    obtain ⟨rfl, rfl⟩ := Prod.mk.inj (Except.ok.inj h)
    exact (Follows.of_run rfl).of_iff (by simpa using hseen)
  | cons pair pairs ih =>
    obtain ⟨key, value⟩ := pair
    obtain ⟨k, between, hkey, h⟩ := reads_bind h
    obtain ⟨v, between', hvalue, h⟩ := reads_bind h
    obtain ⟨rest, between'', hrest, h⟩ := reads_bind h
    obtain ⟨rfl, rfl⟩ := Prod.mk.inj (Except.ok.inj h)
    rw [entries_value_cons]
    have hvalues {key : Untyped} : RepeatedIn (seen ++ [k] ++ rest.map Prod.fst) key ↔
        RepeatedIn (seen ++ ((k, v) :: rest).map Prod.fst) key := by
      rw [List.append_assoc]
      rfl
    refine ((hdepth _ _ _ _ _ hkey).bind (show Follows (fun key => v.Repeats key ∨
      (∃ entry ∈ rest, entry.1.Repeats key ∨ entry.2.Repeats key) ∨
        RepeatedIn (seen ++ [k] ++ rest.map Prod.fst) key) _ _ _ from ?_)).of_iff fun key => ?_
    · cases hfound : seen.find? fun other => other.sameKey k with
      | some first =>
        -- The strict reading ends here, with the key that came first.
        have hsame := List.find?_some hfound
        have hrepeated : RepeatedIn (seen ++ [k]) first := Untyped.repeatedIn_concat.mpr
          (.inr ⟨List.mem_of_find?_eq_some hfound, hsame⟩)
        exact .inr ⟨first, place, path, .inr (.inr (hrepeated.append _)), rfl⟩
      | none =>
        have hseen' (key : Untyped) : ¬RepeatedIn (seen ++ [k]) key := by
          rw [Untyped.repeatedIn_concat]
          rintro (hrepeated | ⟨hmem, hsame⟩)
          · exact hseen key hrepeated
          · exact List.find?_eq_none.mp hfound key hmem hsame
        refine ((hdepth _ _ _ _ _ hvalue).bind ((ih hseen' hrest).bind (.of_run rfl))).of_iff
          fun key => ?_
        rw [or_false]
    · rw [hvalues, List.exists_mem_cons_iff, or_assoc, or_assoc]

/-- A scalar means the same data, which hold no others, whatever is asked of it. -/
theorem scalarMeaning_bind_eq_ok {expected : String} {tag : Option TagText} {style : Style}
    {text : List Char} {data : Untyped}
    (h : (scalarMeaning tag style text).bind (meaningData expected text) = .ok data) :
    (∀ other, (scalarMeaning tag style text).bind (meaningData other text) = .ok data) ∧
      data.IsLeaf := by
  obtain ⟨meaning, hmeaning, hvalue⟩ := bind_eq_ok.mp h
  obtain ⟨hother, hleaf⟩ := meaningData_eq_ok hvalue
  rw [hmeaning]
  exact ⟨hother, hleaf⟩

/-- A node is followed if what it holds is. -/
theorem followsAt_of_inner {depth : Nat} (hinner : ∀ inner, depth = inner + 1 → d.FollowsAt inner) :
    d.FollowsAt depth := by
  intro path node before data after h
  rw [untyped_eq] at h ⊢
  obtain ⟨⟨node', path'⟩, between, htarget, h⟩ := reads_bind h
  refine ((Follows.of_run htarget).bind (show Follows data.Repeats _ _ _ from ?_)).of_iff fun key =>
    iff_of_eq (false_or _)
  -- A tag of a program's own would have been refused, so both read the content as it stands.
  obtain ⟨hname, h⟩ := Strictness.buffer_tagged_eq_ok h
  rw [hname]
  change Follows data.Repeats (d.untagged .value depth path' node') between (data, after)
  cases untagged_eq_ok_iff.mp h with
  | scalar hmeaning =>
    obtain ⟨hstrict, hleaf⟩ := scalarMeaning_bind_eq_ok hmeaning
    exact .inl ⟨untagged_eq_ok_iff.mpr (.scalar (hstrict _)), fun _ => hleaf.not_repeats⟩
  | sequence hitems =>
    refine ((follows_items (hinner _ rfl) hitems).bind (.of_run rfl)).of_iff fun key => ?_
    rw [or_false, Untyped.repeats_sequence]
  | mapping hentries =>
    refine ((follows_entries (hinner _ rfl) (fun _ => Untyped.not_repeatedIn_nil)
      hentries).bind (.of_run rfl)).of_iff fun key => ?_
    rw [or_false, Untyped.repeats_mapping, List.nil_append]

theorem followsAt (d : Document) (depth : Nat) : d.FollowsAt depth := by
  induction depth with
  | zero => exact followsAt_of_inner fun _ h => nomatch h
  | succ depth ih => exact followsAt_of_inner fun _ h => Nat.succ.inj h ▸ ih

/-! ### Data without tags -/

/-- Where a strict reading gives no tag it reads the content, and the tag has no name. -/
theorem value_tagged_eq_ok {name : Option String} {place : Mark} {content : Reads Untyped}
    {data : Untyped} (htag : ¬data.HoldsTag)
    (h : (Strictness.value.tagged name place path content).run before = .ok (data, after)) :
    name = none ∧ content.run before = .ok (data, after) := by
  cases name with
  | none => exact ⟨rfl, h⟩
  | some name =>
    obtain ⟨value, between, -, h⟩ := reads_bind h
    obtain ⟨rfl, -⟩ := Prod.mk.inj (Except.ok.inj h)
    exact absurd (Untyped.holdsTag_tagged name value) htag

/-- What is read strictly at a depth is read leniently as well, if it holds no tag. -/
def LenientAt (d : Document) (depth : Nat) : Prop :=
  ∀ path node before data after,
    (d.untyped .value depth path node).run before = .ok (data, after) → ¬data.HoldsTag →
      (d.untyped .buffer depth path node).run before = .ok (data, after)

theorem buffer_items {depth : Nat} (hdepth : d.LenientAt depth) {index : Nat} {nodes : List Node}
    {items : List Untyped} (htag : ∀ item ∈ items, ¬item.HoldsTag)
    (h : (Document.items (d.untyped .value depth) path index nodes).run before =
      .ok (items, after)) :
    (Document.items (d.untyped .buffer depth) path index nodes).run before =
      .ok (items, after) := by
  induction nodes generalizing index items before with
  | nil => exact h
  | cons node nodes ih =>
    obtain ⟨item, between, hitem, h⟩ := reads_bind h
    obtain ⟨rest, between', hrest, h⟩ := reads_bind h
    obtain ⟨rfl, rfl⟩ := Prod.mk.inj (Except.ok.inj h)
    obtain ⟨hfirst, htag⟩ := List.forall_mem_cons.mp htag
    rw [Document.items, run_bind_of_ok (hdepth _ _ _ _ _ hitem hfirst),
      run_bind_of_ok (ih htag hrest)]
    rfl

theorem buffer_entries {depth : Nat} (hdepth : d.LenientAt depth) {place : Mark}
    {seen : List Untyped} {pairs : List (Node × Node)} {entries : List (Untyped × Untyped)}
    (htag : ∀ entry ∈ entries, ¬(entry.1.HoldsTag ∨ entry.2.HoldsTag))
    (h : (Document.entries .value (d.untyped .value depth) place path seen pairs).run before =
      .ok (entries, after)) :
    (Document.entries .buffer (d.untyped .buffer depth) place path seen pairs).run before =
      .ok (entries, after) := by
  induction pairs generalizing seen entries before with
  | nil => exact h
  | cons pair pairs ih =>
    obtain ⟨key, value⟩ := pair
    rw [entries_value_cons] at h
    obtain ⟨k, between, hkey, h⟩ := reads_bind h
    cases hfound : seen.find? fun other => other.sameKey k with
    | some first =>
      rw [hfound] at h
      nomatch h
    | none =>
      rw [hfound] at h
      obtain ⟨v, between', hvalue, h⟩ := reads_bind h
      obtain ⟨rest, between'', hrest, h⟩ := reads_bind h
      obtain ⟨rfl, rfl⟩ := Prod.mk.inj (Except.ok.inj h)
      obtain ⟨hfirst, htag⟩ := List.forall_mem_cons.mp htag
      obtain ⟨hk, hv⟩ := not_or.mp hfirst
      rw [Document.entries, run_bind_of_ok (hdepth _ _ _ _ _ hkey hk)]
      refine (run_bind_of_ok (hdepth _ _ _ _ _ hvalue hv)).trans ?_
      exact run_bind_of_ok (ih htag hrest)

theorem lenientAt_of_inner {depth : Nat}
    (hinner : ∀ inner, depth = inner + 1 → d.LenientAt inner) : d.LenientAt depth := by
  intro path node before data after h htag
  rw [untyped_eq] at h ⊢
  obtain ⟨⟨node', path'⟩, between, htarget, h⟩ := reads_bind h
  rw [run_bind_of_ok htarget]
  obtain ⟨hname, h⟩ := value_tagged_eq_ok htag h
  rw [hname]
  refine untagged_eq_ok_iff.mpr ?_
  cases untagged_eq_ok_iff.mp h with
  | scalar hmeaning => exact .scalar ((scalarMeaning_bind_eq_ok hmeaning).1 _)
  | sequence hitems =>
    simp only [Untyped.holdsTag_sequence, not_exists, not_and] at htag
    exact .sequence (buffer_items (hinner _ rfl) htag hitems)
  | mapping hentries =>
    simp only [Untyped.holdsTag_mapping, not_exists, not_and] at htag
    exact .mapping (buffer_entries (hinner _ rfl) htag hentries)

/-- What is read strictly is read leniently as the same data if they hold no tag. -/
theorem lenientAt (d : Document) (depth : Nat) : d.LenientAt depth := by
  induction depth with
  | zero => exact lenientAt_of_inner fun _ h => nomatch h
  | succ depth ih => exact lenientAt_of_inner fun _ h => Nat.succ.inj h ▸ ih

/-- What can be read leniently holds no tag when it is read strictly. -/
def TaglessAt (d : Document) (depth : Nat) : Prop :=
  ∀ path node before data after buffered,
    (d.untyped .value depth path node).run before = .ok (data, after) → d.Means node buffered →
      ¬data.HoldsTag

theorem tagless_items {depth : Nat} (hdepth : d.TaglessAt depth) {index : Nat} {nodes : List Node}
    {items buffered : List Untyped} (hmeans : List.Forall₂ d.Means nodes buffered)
    (h : (Document.items (d.untyped .value depth) path index nodes).run before =
      .ok (items, after)) : ¬∃ item ∈ items, item.HoldsTag := by
  induction hmeans generalizing index items before after with
  | nil =>
    obtain ⟨rfl, -⟩ := Prod.mk.inj (Except.ok.inj h)
    simp
  | cons hmeans _ ih =>
    obtain ⟨item, between, hitem, h⟩ := reads_bind h
    obtain ⟨rest, between', hrest, h⟩ := reads_bind h
    obtain ⟨rfl, -⟩ := Prod.mk.inj (Except.ok.inj h)
    rw [List.exists_mem_cons_iff]
    exact not_or.mpr ⟨hdepth _ _ _ _ _ _ hitem hmeans, ih hrest⟩

theorem tagless_entries {depth : Nat} (hdepth : d.TaglessAt depth) {place : Mark}
    {seen : List Untyped} {pairs : List (Node × Node)} {entries buffered : List (Untyped × Untyped)}
    (hmeans : List.Forall₂ (fun pair entry => d.Means pair.1 entry.1 ∧ d.Means pair.2 entry.2) pairs
      buffered)
    (h : (Document.entries .value (d.untyped .value depth) place path seen pairs).run before =
      .ok (entries, after)) :
    ¬∃ entry ∈ entries, entry.1.HoldsTag ∨ entry.2.HoldsTag := by
  induction hmeans generalizing seen entries before after with
  | nil =>
    obtain ⟨rfl, -⟩ := Prod.mk.inj (Except.ok.inj h)
    simp
  | @cons pair _ pairs _ hmeans _ ih =>
    obtain ⟨key, value⟩ := pair
    rw [entries_value_cons] at h
    obtain ⟨k, between, hkey, h⟩ := reads_bind h
    cases hfound : seen.find? fun other => other.sameKey k with
    | some first =>
      rw [hfound] at h
      nomatch h
    | none =>
      rw [hfound] at h
      obtain ⟨v, between', hvalue, h⟩ := reads_bind h
      obtain ⟨rest, between'', hrest, h⟩ := reads_bind h
      obtain ⟨rfl, -⟩ := Prod.mk.inj (Except.ok.inj h)
      rw [List.exists_mem_cons_iff]
      exact not_or.mpr ⟨not_or.mpr ⟨hdepth _ _ _ _ _ _ hkey hmeans.1,
        hdepth _ _ _ _ _ _ hvalue hmeans.2⟩, ih hrest⟩

theorem taglessAt_of_inner {depth : Nat}
    (hinner : ∀ inner, depth = inner + 1 → d.TaglessAt inner) : d.TaglessAt depth := by
  intro path node before data after buffered h hmeans
  rw [untyped_eq] at h
  obtain ⟨⟨node', path'⟩, between, htarget, h⟩ := reads_bind h
  have hname := hmeans.localName?_eq_none
  have hcases := hmeans.cases
  rw [← target_eq htarget] at hname hcases
  rw [hname] at h
  cases untagged_eq_ok_iff.mp h with
  | scalar hmeaning => exact (scalarMeaning_bind_eq_ok hmeaning).2.not_holdsTag
  | sequence hitems =>
    obtain hdata | ⟨_, _, _, _, hnode, -, hall⟩ | ⟨_, _, _, _, hnode, -⟩ := hcases
    · nomatch hdata
    · obtain ⟨-, -, rfl⟩ := Node.sequence.inj hnode
      rw [Untyped.holdsTag_sequence]
      exact tagless_items (hinner _ rfl) hall hitems
    · nomatch hnode
  | mapping hentries =>
    obtain hdata | ⟨_, _, _, _, hnode, -⟩ | ⟨_, _, _, _, hnode, -, hall⟩ := hcases
    · nomatch hdata
    · nomatch hnode
    · obtain ⟨-, -, rfl⟩ := Node.mapping.inj hnode
      rw [Untyped.holdsTag_mapping]
      exact tagless_entries (hinner _ rfl) hall hentries

/-- What can be read leniently is read strictly as data without a tag. -/
theorem taglessAt (d : Document) (depth : Nat) : d.TaglessAt depth := by
  induction depth with
  | zero => exact taglessAt_of_inner fun _ h => nomatch h
  | succ depth ih => exact taglessAt_of_inner fun _ h => Nat.succ.inj h ▸ ih

/-! ### Whole documents -/

/-- A document with nothing behind its root is read as its root is. -/
theorem decode_of_root {α : Type} {missing : Except ReadError α} {read : Node → Reads α}
    {root : Node} (hroot : d.root = some root) (htail : d.tail = none) (hmore : d.more = false) :
    d.decode missing read = ((read root).run 0).map (·.1) := by
  rw [decode, htail, hmore, hroot]
  change (((read root).run 0).map (·.1) >>= fun value => .ok value) = _
  cases (read root).run 0 with
  | error e => rfl
  | ok result => rfl

/-- A document that the lenient reading accepts is read as the same data by the strict one if no key
is repeated in the data, and otherwise refused for a key that is. -/
theorem value_of_buffer {data : Untyped} (h : d.data .buffer = .ok data) :
    (d.data .value = .ok data ∧ ∀ key, ¬data.Repeats key) ∨
      ∃ key place path, data.Repeats key ∧
        d.data .value = .error (.complaint (.duplicateKey key) place path) := by
  obtain ⟨htail, hmore⟩ := decode_accepts h
  rcases decode_eq_ok h with ⟨hroot, hnull⟩ | ⟨root, after, hroot, hrun⟩
  · obtain rfl := Except.ok.inj hnull
    have hvalue : d.data .value = .ok .null := by
      rw [Document.data, decode, htail, hmore, hroot]
      rfl
    exact .inl ⟨hvalue, fun _ => Untyped.IsLeaf.not_repeats trivial⟩
  · have hvalue : d.data .value = _ := decode_of_root hroot htail hmore
    rw [hvalue]
    rcases followsAt d _ _ _ _ _ _ hrun with ⟨hstrict, hnone⟩ | ⟨key, place, path, hkey, hstrict⟩
    · exact .inl ⟨by rw [hstrict]; rfl, hnone⟩
    · exact .inr ⟨key, place, path, hkey, by rw [hstrict]; rfl⟩

end Document

end Yaml

end CollectorTemplate
