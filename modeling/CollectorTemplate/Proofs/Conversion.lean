/-
From data to trees.

A conversion drops tags and nothing else.  What stands in the data at a path, of indices and of the
texts of keys, stands in the tree at the same path, and there is no more in the tree.  Only two
things stop a conversion: a key that is a collection, and two keys of one mapping with one text,
which may well be different keys.

* `Untyped.at?`, `Tree.at?` : what stands at a path;
* `Untyped.PartOf` : what stands anywhere in data, in keys too;
* `Fragment.convertEntries_eq_ok` : a mapping is converted entry by entry, under different names;
* `Fragment.convert_exact` : when a conversion fails, and what it keeps otherwise.

Both halves rest on the one description of converted entries: the induction over data meets it at
each mapping, and the induction over a path at each step.
-/
import CollectorTemplate.Proofs.Assembly
import CollectorTemplate.Proofs.Tree
import CollectorTemplate.Proofs.Yaml.Cursor

namespace CollectorTemplate

open Fragment (ConversionError keyText convert convertItems convertEntries)

/-! ### Paths -/

/-- A step into data. -/
inductive Branch
  | item (index : Nat)
  /-- To what a mapping has at a key with this text. -/
  | entry (key : String)
  deriving Repr, DecidableEq, Inhabited

namespace Untyped

/-- Data without the tags around it. -/
def bare : Untyped → Untyped
  | .tagged _ value => value.bare
  | data => data

/-- The items of a sequence, tags apart. -/
def sequence? (data : Untyped) : Option (List Untyped) :=
  match data.bare with
  | .sequence items => some items
  | _ => none

/-- The entries of a mapping, tags apart. -/
def mapping? (data : Untyped) : Option (List (Untyped × Untyped)) :=
  match data.bare with
  | .mapping entries => some entries
  | _ => none

/-- Whether data is a sequence or a mapping, tags apart. -/
def isCollection (data : Untyped) : Bool := data.sequence?.isSome || data.mapping?.isSome

/-- What data has behind a step. -/
def branch? (data : Untyped) : Branch → Option Untyped
  | .item index => data.sequence?.bind fun items => items[index]?
  | .entry key =>
    data.mapping?.bind fun entries => (entries.find? fun e => keyText e.1 == some key).map (·.2)

/-- What stands in data at a path. -/
def at? (data : Untyped) (path : List Branch) : Option Untyped := path.foldlM branch? data

/-- What stands anywhere in data: data itself, and the parts of what it holds, keys and values
alike. -/
inductive PartOf (part : Untyped) : Untyped → Prop
  | self : PartOf part part
  | tagged (tag : String) {value : Untyped} (h : PartOf part value) :
      PartOf part (.tagged tag value)
  | item {items : List Untyped} {item : Untyped} (hitem : item ∈ items) (h : PartOf part item) :
      PartOf part (.sequence items)
  | key {entries : List (Untyped × Untyped)} {entry : Untyped × Untyped} (hentry : entry ∈ entries)
      (h : PartOf part entry.1) : PartOf part (.mapping entries)
  | value {entries : List (Untyped × Untyped)} {entry : Untyped × Untyped}
      (hentry : entry ∈ entries) (h : PartOf part entry.2) : PartOf part (.mapping entries)

/-- What is wrong with the keys of a mapping. -/
def Offends (entries : List (Untyped × Untyped)) : ConversionError → Prop
  | .collectionKey => ∃ entry ∈ entries, entry.1.isCollection = true
  | .duplicateKey key =>
    ∃ a b, [a, b].Sublist entries ∧ keyText a.1 = some key ∧ keyText b.1 = some key

/-- Something is wrong with the keys of a mapping that stands in data. -/
def Faulty (data : Untyped) (error : ConversionError) : Prop :=
  ∃ entries, PartOf (.mapping entries) data ∧ Offends entries error

end Untyped

namespace Tree

/-- What a tree has behind a step. -/
def branch? (tree : Tree) : Branch → Option Tree
  | .item index => tree.sequence?.bind fun items => items[index]?
  | .entry key => tree.get? key

/-- What stands in a tree at a path. -/
def at? (tree : Tree) (path : List Branch) : Option Tree := path.foldlM branch? tree

end Tree

namespace Fragment

variable {data key : Untyped} {tree : Tree} {items : List Untyped} {trees : List Tree}
  {entries : List (Untyped × Untyped)} {error : ConversionError}

/-! ### Keys -/

/-- Just the collections have no text. -/
theorem keyText_eq_none : keyText key = none ↔ key.isCollection = true := by
  induction key using Untyped.induction with
  | tagged tag value ih => exact ih
  | sequence items _ => exact ⟨fun _ => rfl, fun _ => rfl⟩
  | mapping entries _ => exact ⟨fun _ => rfl, fun _ => rfl⟩
  | _ => exact ⟨nofun, nofun⟩

/-- What has a text has a tree too. -/
theorem convert_of_keyText {k : String} (h : keyText key = some k) :
    ∃ tree, convert key = .ok tree := by
  induction key using Untyped.induction with
  | tagged tag value ih => exact ih h
  | sequence items _ => nomatch h
  | mapping entries _ => nomatch h
  | _ => exact ⟨_, rfl⟩

/-! ### Items and entries -/

theorem convertItems_eq_ok :
    convertItems items = .ok trees ↔
      List.Forall₂ (fun item tree => convert item = .ok tree) items trees := by
  induction items generalizing trees with
  | nil =>
    constructor
    · intro h
      obtain rfl := Except.ok.inj h
      exact .nil
    · rintro ⟨⟩
      rfl
  | cons item items ih =>
    constructor
    · intro h
      obtain ⟨tree, htree, h⟩ := bind_eq_ok.mp h
      obtain ⟨rest, hrest, h⟩ := bind_eq_ok.mp h
      obtain rfl := Except.ok.inj h
      exact .cons htree (ih.mp hrest)
    · rintro (_ | ⟨htree, hrest⟩)
      rw [convertItems, htree, ih.mpr hrest]
      rfl

/-- An entry of data becomes an entry with the text of its key and the tree of its value. -/
def IsEntryOf (entry : Untyped × Untyped) (named : String × Tree) : Prop :=
  keyText entry.1 = some named.1 ∧ convert entry.2 = .ok named.2

/-- Entries are converted one by one, and their names must be new each time. -/
theorem convertEntries_eq_ok {found table : List (String × Tree)} :
    convertEntries found entries = .ok table ↔
      ∃ named, List.Forall₂ IsEntryOf entries named ∧
        (Entries.keys named).Nodup ∧ (∀ k ∈ Entries.keys named, Entries.contains k found = false) ∧
        table = named.foldl (fun table e => Entries.insert e.1 e.2 table) found := by
  induction entries generalizing found with
  | nil =>
    constructor
    · intro h
      obtain rfl := Except.ok.inj h
      exact ⟨[], .nil, .nil, fun _ hk => absurd hk List.not_mem_nil, rfl⟩
    · rintro ⟨named, hnamed, -, -, rfl⟩
      cases hnamed
      rfl
  | cons entry entries ih =>
    obtain ⟨key, value⟩ := entry
    constructor
    · intro h
      rw [convertEntries] at h
      cases hkey : keyText key with
      | none =>
        rw [hkey] at h
        nomatch h
      | some k =>
        rw [hkey] at h
        dsimp only at h
        split at h
        · nomatch h
        rename_i hnew
        obtain ⟨tree, htree, h⟩ := bind_eq_ok.mp h
        obtain ⟨named, hnamed, hnodup, hfresh, rfl⟩ := ih.mp h
        refine ⟨(k, tree) :: named, .cons ⟨hkey, htree⟩ hnamed, ?_, ?_, rfl⟩
        · refine List.nodup_cons.mpr ⟨fun hk => ?_, hnodup⟩
          exact (Entries.contains_insert.mp (hfresh k hk)).1 rfl
        · refine List.forall_mem_cons.mpr ⟨Bool.eq_false_iff.mpr hnew, fun l hl => ?_⟩
          exact (Entries.contains_insert.mp (hfresh l hl)).2
    · rintro ⟨_, _ | @⟨_, ⟨k, tree⟩, _, named, ⟨hkey, htree⟩, hnamed⟩, hnodup, hfresh, rfl⟩
      obtain ⟨hk, hnodup⟩ := List.nodup_cons.mp hnodup
      obtain ⟨hnew, hfresh⟩ := List.forall_mem_cons.mp hfresh
      have hkey : keyText key = some k := hkey
      have htree : convert value = .ok tree := htree
      have hnew : Entries.contains k found = false := hnew
      rw [convertEntries, hkey]
      simp only [hnew, htree, Bool.false_eq_true, if_false]
      refine ih.mpr ⟨named, hnamed, hnodup, fun l hl => Entries.contains_insert.mpr ⟨?_, ?_⟩, rfl⟩
      · rintro rfl
        exact hk hl
      · exact hfresh l hl

/-- A mapping becomes the table of its entries, whose names are different. -/
theorem convert_mapping_eq_ok :
    convert (.mapping entries) = .ok tree ↔
      ∃ named, List.Forall₂ IsEntryOf entries named ∧ (Entries.keys named).Nodup ∧
        tree = .ofEntries named := by
  constructor
  · intro h
    obtain ⟨table, htable, h⟩ := bind_eq_ok.mp h
    obtain rfl := Except.ok.inj h
    obtain ⟨named, hnamed, hnodup, -, rfl⟩ := convertEntries_eq_ok.mp htable
    exact ⟨named, hnamed, hnodup, rfl⟩
  · rintro ⟨named, hnamed, hnodup, rfl⟩
    have htable : convertEntries [] entries = .ok (Entries.ofList named) :=
      convertEntries_eq_ok.mpr ⟨named, hnamed, hnodup, fun _ _ => rfl, rfl⟩
    rw [convert, htable]
    rfl

/-! ### Failures -/

theorem convertItems_eq_error (h : convertItems items = .error error) :
    ∃ item ∈ items, convert item = .error error := by
  induction items with
  | nil => nomatch h
  | cons item items ih =>
    rw [convertItems] at h
    cases hitem : convert item with
    | error e =>
      rw [hitem] at h
      obtain rfl := Except.error.inj h
      exact ⟨item, List.mem_cons_self, hitem⟩
    | ok tree =>
      rw [hitem] at h
      cases hrest : convertItems items with
      | error e =>
        rw [hrest] at h
        obtain rfl := Except.error.inj h
        obtain ⟨other, hother, herror⟩ := ih hrest
        exact ⟨other, List.mem_cons_of_mem _ hother, herror⟩
      | ok trees =>
        rw [hrest] at h
        nomatch h

/-- The entries of a mapping fail for a value, for a key without text, or for a key whose text came
before: at an earlier entry, or in what was found before all of them. -/
theorem convertEntries_eq_error {found : List (String × Tree)}
    (h : convertEntries found entries = .error error) :
    (∃ entry ∈ entries, convert entry.2 = .error error) ∨ Untyped.Offends entries error ∨
      ∃ k, error = .duplicateKey k ∧ Entries.contains k found = true ∧
        ∃ entry ∈ entries, keyText entry.1 = some k := by
  induction entries generalizing found with
  | nil => nomatch h
  | cons entry entries ih =>
    obtain ⟨key, value⟩ := entry
    rw [convertEntries] at h
    cases hkey : keyText key with
    | none =>
      rw [hkey] at h
      obtain rfl := Except.error.inj h
      exact .inr (.inl ⟨_, List.mem_cons_self, keyText_eq_none.mp hkey⟩)
    | some k =>
      rw [hkey] at h
      dsimp only at h
      split at h
      · rename_i hfound
        obtain rfl := Except.error.inj h
        exact .inr (.inr ⟨k, rfl, hfound, _, List.mem_cons_self, hkey⟩)
      cases hvalue : convert value with
      | error e =>
        rw [hvalue] at h
        obtain rfl := Except.error.inj h
        exact .inl ⟨_, List.mem_cons_self, hvalue⟩
      | ok tree =>
        rw [hvalue] at h
        rcases ih h with ⟨other, hother, herror⟩ | hoffends | ⟨l, rfl, hl, other, hother, htext⟩
        · exact .inl ⟨other, List.mem_cons_of_mem _ hother, herror⟩
        · refine .inr (.inl ?_)
          cases error with
          | collectionKey =>
            obtain ⟨other, hother, hcollection⟩ := hoffends
            exact ⟨other, List.mem_cons_of_mem _ hother, hcollection⟩
          | duplicateKey l =>
            obtain ⟨a, b, hsublist, ha, hb⟩ := hoffends
            exact ⟨a, b, hsublist.cons _, ha, hb⟩
        · -- The text came before either at this entry or in front of it.
          by_cases heq : l = k
          · subst heq
            refine .inr (.inl ⟨(key, value), other, ?_, hkey, htext⟩)
            exact (List.singleton_sublist.mpr hother).cons_cons _
          · refine .inr (.inr ⟨l, rfl, ?_, other, List.mem_cons_of_mem _ hother, htext⟩)
            by_contra hnew
            rw [Entries.contains_insert.mpr ⟨heq, Bool.eq_false_iff.mpr hnew⟩] at hl
            nomatch hl

/-- A conversion that fails has met what its error tells. -/
theorem faulty_of_error (h : convert data = .error error) : data.Faulty error := by
  induction data using Untyped.induction with
  | tagged tag value ih =>
    obtain ⟨entries, hpart, hoffends⟩ := ih h
    exact ⟨entries, .tagged tag hpart, hoffends⟩
  | sequence items ih =>
    rw [convert] at h
    cases hitems : convertItems items with
    | ok trees =>
      rw [hitems] at h
      nomatch h
    | error e =>
      rw [hitems] at h
      obtain rfl := Except.error.inj h
      obtain ⟨item, hitem, herror⟩ := convertItems_eq_error hitems
      obtain ⟨entries, hpart, hoffends⟩ := ih item hitem herror
      exact ⟨entries, .item hitem hpart, hoffends⟩
  | mapping entries ih =>
    rw [convert] at h
    cases hentries : convertEntries [] entries with
    | ok table =>
      rw [hentries] at h
      nomatch h
    | error e =>
      rw [hentries] at h
      obtain rfl := Except.error.inj h
      rcases convertEntries_eq_error hentries with ⟨entry, hentry, herror⟩ | hoffends |
        ⟨k, -, hfound, -⟩
      · obtain ⟨inner, hpart, hoffends⟩ := ih entry hentry herror
        exact ⟨inner, .value hentry hpart, hoffends⟩
      · exact ⟨entries, .self, hoffends⟩
      · nomatch hfound
  | _ => nomatch h

/-- What stands in data that is converted is converted. -/
theorem converts_of_partOf {part : Untyped} (hpart : part.PartOf data)
    (h : convert data = .ok tree) : ∃ tree, convert part = .ok tree := by
  induction hpart generalizing tree with
  | self => exact ⟨tree, h⟩
  | tagged tag _ ih => exact ih h
  | item hitem _ ih =>
    obtain ⟨trees, htrees, -⟩ := bind_eq_ok.mp h
    obtain ⟨other, -, hother⟩ := related_of_mem (convertItems_eq_ok.mp htrees) hitem
    exact ih hother
  | key hentry _ ih =>
    obtain ⟨named, hnamed, -, -⟩ := convert_mapping_eq_ok.mp h
    obtain ⟨other, -, hkey, -⟩ := related_of_mem hnamed hentry
    obtain ⟨tree, htree⟩ := convert_of_keyText hkey
    exact ih htree
  | value hentry _ ih =>
    obtain ⟨named, hnamed, -, -⟩ := convert_mapping_eq_ok.mp h
    obtain ⟨other, -, -, hvalue⟩ := related_of_mem hnamed hentry
    exact ih hvalue

/-- Nothing is wrong with the keys of a mapping that is converted. -/
theorem not_offends_of_convert (h : convert (.mapping entries) = .ok tree) :
    ¬Untyped.Offends entries error := by
  obtain ⟨named, hnamed, hnodup, -⟩ := convert_mapping_eq_ok.mp h
  cases error with
  | collectionKey =>
    rintro ⟨entry, hentry, hcollection⟩
    obtain ⟨other, -, hkey, -⟩ := related_of_mem hnamed hentry
    rw [keyText_eq_none.mpr hcollection] at hkey
    nomatch hkey
  | duplicateKey k =>
    rintro ⟨a, b, hsublist, ha, hb⟩
    clear h
    induction hnamed with
    | nil => nomatch hsublist
    | @cons entry name entries named hname hnamed ih =>
      obtain ⟨hfirst, hnodup⟩ := List.nodup_cons.mp hnodup
      cases hsublist with
      | cons _ hsublist => exact ih hnodup hsublist
      | cons_cons _ hsublist =>
        -- The first of the two entries is here, and the second one has the same name further on.
        obtain ⟨other, hother, hkey, -⟩ :=
          related_of_mem hnamed (List.singleton_sublist.mp hsublist)
        obtain rfl : k = name.1 := Option.some.inj (ha.symm.trans hname.1)
        obtain heq : name.1 = other.1 := Option.some.inj (hb.symm.trans hkey)
        exact hfirst (List.mem_map.mpr ⟨other, hother, heq.symm⟩)

theorem not_faulty_of_convert (h : convert data = .ok tree) : ¬data.Faulty error := by
  rintro ⟨entries, hpart, hoffends⟩
  obtain ⟨other, hother⟩ := converts_of_partOf hpart h
  exact not_offends_of_convert hother hoffends

/-! ### What is kept -/

/-- Tags do not count. -/
theorem convert_bare (data : Untyped) : convert data.bare = convert data := by
  induction data using Untyped.induction with
  | tagged tag value ih => exact ih
  | _ => rfl

theorem bare_ne_tagged (data : Untyped) (tag : String) (value : Untyped) :
    data.bare ≠ .tagged tag value := by
  induction data using Untyped.induction with
  | tagged _ _ ih => exact ih
  | _ => exact Untyped.noConfusion

/-- A table holds the entries of a mapping, which have different names. -/
def IsTableOf (entries : List (Untyped × Untyped)) (table : List (String × Tree)) : Prop :=
  ∃ named, List.Forall₂ IsEntryOf entries named ∧ (Entries.keys named).Nodup ∧
    table = Entries.ofList named

/-- A sequence becomes the sequence of its converted items, a mapping the table of its entries, and
nothing else becomes either. -/
theorem shape_of_convert (h : convert data = .ok tree) :
    Option.Rel (List.Forall₂ fun item tree => convert item = .ok tree) data.sequence?
        tree.sequence? ∧
      Option.Rel IsTableOf data.mapping? tree.mapping? := by
  unfold Untyped.sequence? Untyped.mapping?
  rw [← convert_bare] at h
  cases hdata : data.bare with
  | tagged tag value => exact absurd hdata (bare_ne_tagged data tag value)
  | sequence items =>
    rw [hdata] at h
    obtain ⟨trees, htrees, h⟩ := bind_eq_ok.mp h
    obtain rfl := Except.ok.inj h
    exact ⟨.some (convertItems_eq_ok.mp htrees), .none⟩
  | mapping entries =>
    rw [hdata] at h
    obtain ⟨named, hnamed, hnodup, rfl⟩ := convert_mapping_eq_ok.mp h
    exact ⟨.none, .some ⟨named, hnamed, hnodup, rfl⟩⟩
  | natural n | negative n =>
    -- An integer beyond 64 bits becomes a number of another kind, which is no collection either.
    rw [hdata] at h
    obtain rfl := Except.ok.inj h
    by_cases hn : Width.signed 64 n
    · rw [integerTree, if_pos hn]
      exact ⟨.none, .none⟩
    · rw [integerTree, if_neg hn]
      exact ⟨.none, .none⟩
  | _ =>
    rw [hdata] at h
    obtain rfl := Except.ok.inj h
    exact ⟨.none, .none⟩

/-- A tree is what data is converted to, with as many items, or as many entries. -/
structure Keeps (data : Untyped) (tree : Tree) : Prop where
  converted : convert data = .ok tree
  items : tree.sequence?.map List.length = data.sequence?.map List.length
  entries : tree.mapping?.map List.length = data.mapping?.map List.length

theorem keeps_of_convert (h : convert data = .ok tree) : Keeps data tree := by
  obtain ⟨hsequence, hmapping⟩ := shape_of_convert h
  refine ⟨h, ?_, ?_⟩
  · generalize data.sequence? = items, tree.sequence? = trees at hsequence
    cases hsequence with
    | none => rfl
    | some hitems => exact congrArg some hitems.length_eq.symm
  · generalize data.mapping? = entries, tree.mapping? = table at hmapping
    cases hmapping with
    | none => rfl
    | some htable =>
      obtain ⟨named, hnamed, hnodup, rfl⟩ := htable
      exact congrArg some ((Entries.perm_ofList hnodup).length_eq.trans hnamed.length_eq.symm)

/-- What the entry with a text among its keys becomes is found in the table at that text. -/
theorem find?_of_isTableOf {table : List (String × Tree)} (h : IsTableOf entries table)
    (k : String) :
    Option.Rel (fun value tree => convert value = .ok tree)
      ((entries.find? fun e => keyText e.1 == some k).map (·.2)) (Entries.find? k table) := by
  obtain ⟨named, hnamed, hnodup, rfl⟩ := h
  rw [Entries.find?_ofList_of_nodup hnodup]
  clear hnodup
  induction hnamed with
  | nil => exact .none
  | @cons entry name entries named hname _ ih =>
    obtain ⟨hkey, hvalue⟩ := hname
    rw [Entries.find?]
    by_cases hk : k = name.1
    · rw [if_pos hk, List.find?_cons_of_pos (by simp [hkey, hk])]
      exact .some hvalue
    · rw [if_neg hk, List.find?_cons_of_neg (by simp [hkey, Ne.symm hk])]
      exact ih

/-- Searches that go on in corresponding ways from corresponding results correspond. -/
theorem rel_bind {α β γ δ : Type} {before : α → β → Prop} {after : γ → δ → Prop} {left : Option α}
    {right : Option β} {f : α → Option γ} {g : β → Option δ} (h : Option.Rel before left right)
    (hstep : ∀ a b, before a b → Option.Rel after (f a) (g b)) :
    Option.Rel after (left.bind f) (right.bind g) := by
  cases h with
  | none => exact .none
  | some hab => exact hstep _ _ hab

/-- Behind a step there is in the tree what is there in the data, converted. -/
theorem branch?_of_convert (h : convert data = .ok tree) (branch : Branch) :
    Option.Rel (fun data tree => convert data = .ok tree) (data.branch? branch)
      (tree.branch? branch) := by
  obtain ⟨hsequence, hmapping⟩ := shape_of_convert h
  cases branch with
  | item index =>
    refine rel_bind hsequence fun items trees hitems => ?_
    by_cases hindex : index < items.length
    · have hindex' : index < trees.length := hitems.length_eq ▸ hindex
      rw [List.getElem?_eq_getElem hindex, List.getElem?_eq_getElem hindex']
      exact .some (hitems.get hindex hindex')
    · have hindex' : trees.length ≤ index := hitems.length_eq ▸ Nat.le_of_not_lt hindex
      rw [List.getElem?_eq_none (Nat.le_of_not_lt hindex), List.getElem?_eq_none hindex']
      exact .none
  | entry key => exact rel_bind hmapping fun entries table htable => find?_of_isTableOf htable key

theorem at?_of_convert (h : convert data = .ok tree) (path : List Branch) :
    Option.Rel Keeps (data.at? path) (tree.at? path) := by
  induction path generalizing data tree with
  | nil => exact .some (keeps_of_convert h)
  | cons branch path ih =>
    rw [Untyped.at?, Tree.at?, List.foldlM_cons, List.foldlM_cons]
    exact rel_bind (branch?_of_convert h branch) fun data tree hnext => ih hnext

/-- A conversion fails just for the keys of a mapping somewhere in the data, and its error tells
what is wrong with them.  Otherwise, whatever stands in the data at a path of indices and texts of
keys stands converted in the tree at the same path, with as many items or entries, and nothing else
stands in the tree. -/
theorem convert_exact (data : Untyped) :
    ((∃ error, convert data = .error error) ↔ ∃ error, data.Faulty error) ∧
      (∀ error, convert data = .error error → data.Faulty error) ∧
      ∀ tree, convert data = .ok tree →
        ∀ path, Option.Rel Keeps (data.at? path) (tree.at? path) := by
  refine ⟨⟨?_, ?_⟩, fun error => faulty_of_error, fun tree => at?_of_convert⟩
  · rintro ⟨error, herror⟩
    exact ⟨error, faulty_of_error herror⟩
  · rintro ⟨error, hfaulty⟩
    cases hdata : convert data with
    | error e => exact ⟨e, rfl⟩
    | ok tree => exact absurd hfaulty (not_faulty_of_convert hdata)

/-- A tagged key collides with a number of the same text, and a path goes through tags. -/
theorem convert_exact_of_tagged :
    convert (.mapping [(.natural 1, .null), (.tagged "!t" (.string "1"), .bool true)]) =
        .error (.duplicateKey "1") ∧
      (∃ error, Untyped.Faulty
        (.mapping [(.natural 1, .null), (.tagged "!t" (.string "1"), .bool true)]) error) ∧
      ∃ tree, convert (.mapping [(.natural 1, .tagged "!t" (.sequence [.null, .bool true]))]) =
          .ok tree ∧
        Option.Rel Keeps (some (.bool true)) (tree.at? [.entry "1", .item 1]) := by
  refine ⟨rfl, (convert_exact _).1.mp ⟨_, rfl⟩, _, rfl, ?_⟩
  exact (convert_exact (.mapping [(.natural 1, .tagged "!t" (.sequence [.null, .bool true]))])).2.2
    _ rfl [.entry "1", .item 1]

end Fragment

end CollectorTemplate
