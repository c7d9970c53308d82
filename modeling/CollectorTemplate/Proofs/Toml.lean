/-
Distinct keys in TOML.

What would give a key a second value has no result.  So no table that comes out of a text has two
entries with one key, however the text builds it: by its headers, by its entries, in braces or with
keys of several parts.

* `Value.Distinct`, `Table.Distinct` : no table has two entries with one key;
* `Table.Distinct.within` : what keeps a table distinct does so at the end of a path;
* `distinct_read?` : what a text holds is distinct.
-/
import CollectorTemplate.Proofs.Entries
import CollectorTemplate.Toml.Read

namespace CollectorTemplate.Toml

/-- No table in a value has two entries with one key. -/
inductive Value.Distinct : Value → Prop
  | string (text : String) : Distinct (.string text)
  | boolean (value : Bool) : Distinct (.boolean value)
  | integer (value : Int) : Distinct (.integer value)
  | float (value : Option Float) : Distinct (.float value)
  | moment (value : Moment) : Distinct (.moment value)
  | array {items : List Value} (hitems : ∀ item ∈ items, Distinct item) : Distinct (.array items)
  | tables {latest : Table} {earlier : List Table}
      (hkeys : ∀ row ∈ latest :: earlier, (Entries.keys row).Nodup)
      (hvalues : ∀ row ∈ latest :: earlier, ∀ entry ∈ row, Distinct entry.2) :
      Distinct (.tables latest earlier)
  | table {origin : Origin} {entries : Table} (hkeys : (Entries.keys entries).Nodup)
      (hvalues : ∀ entry ∈ entries, Distinct entry.2) : Distinct (.table origin entries)

/-- Neither a table nor any table in it has two entries with one key. -/
structure Table.Distinct (entries : Table) : Prop where
  keys : (Entries.keys entries).Nodup
  values : ∀ entry ∈ entries, entry.2.Distinct

variable {key : String} {value : Value} {entries result : Table} {path : List String}
  {origin : Origin}

theorem Table.Distinct.asValue (h : Table.Distinct entries) :
    (Value.table origin entries).Distinct :=
  .table h.keys h.values

theorem Value.Distinct.asTable (h : (Value.table origin entries).Distinct) :
    Table.Distinct entries := by
  cases h with
  | table hkeys hvalues => exact ⟨hkeys, hvalues⟩

theorem Value.Distinct.rows {latest : Table} {earlier : List Table}
    (h : (Value.tables latest earlier).Distinct) :
    ∀ row ∈ latest :: earlier, Table.Distinct row := by
  cases h with
  | tables hkeys hvalues => exact fun row hrow => ⟨hkeys row hrow, hvalues row hrow⟩

theorem Value.Distinct.of_rows {latest : Table} {earlier : List Table}
    (h : ∀ row ∈ latest :: earlier, Table.Distinct row) : (Value.tables latest earlier).Distinct :=
  .tables (fun row hrow => (h row hrow).keys) fun row hrow => (h row hrow).values

namespace Table.Distinct

/-! ### Tables -/

theorem nil : Table.Distinct [] := ⟨.nil, fun _ h => absurd h List.not_mem_nil⟩

theorem put (h : Table.Distinct entries) (key : String) (hvalue : value.Distinct) :
    Table.Distinct (Entries.put key value entries) := by
  refine ⟨Entries.nodup_keys_put h.keys, fun entry hentry => ?_⟩
  rcases Entries.mem_of_mem_put hentry with rfl | hentry
  · exact hvalue
  · exact h.values entry hentry

theorem find? (h : Table.Distinct entries) (hfind : Entries.find? key entries = some value) :
    value.Distinct :=
  h.values _ (Entries.mem_of_find? hfind)

/-- A change that keeps tables distinct does so at the end of a path. -/
theorem within {dotted : Bool} {change : Origin → Table → Option Table}
    (hchange : ∀ origin table result, Table.Distinct table → change origin table = some result →
      Table.Distinct result)
    (h : Table.Distinct entries)
    (hwithin : within dotted change path origin entries = some result) :
    Table.Distinct result := by
  induction path generalizing origin entries result with
  | nil => exact hchange origin entries result h hwithin
  | cons key path ih =>
    rw [Toml.within] at hwithin
    split at hwithin
    · obtain ⟨inner, hinner, hwithin⟩ := Option.bind_eq_some_iff.mp hwithin
      obtain rfl := Option.some.inj hwithin
      exact h.put key (ih nil hinner).asValue
    · rename_i hfind
      split at hwithin
      · nomatch hwithin
      · obtain ⟨inner, hinner, hwithin⟩ := Option.bind_eq_some_iff.mp hwithin
        obtain rfl := Option.some.inj hwithin
        exact h.put key (ih (h.find? hfind).asTable hinner).asValue
    · rename_i hfind
      obtain ⟨inner, hinner, hwithin⟩ := Option.bind_eq_some_iff.mp hwithin
      obtain rfl := Option.some.inj hwithin
      -- Only the latest of the tables in a row changes.
      obtain ⟨hlatest, hearlier⟩ := List.forall_mem_cons.mp (h.find? hfind).rows
      exact h.put key (.of_rows (List.forall_mem_cons.mpr ⟨ih hlatest hinner, hearlier⟩))
    · nomatch hwithin

theorem assign (h : Table.Distinct entries) (hvalue : value.Distinct)
    (hassign : assign path key value entries = some result) : Table.Distinct result := by
  refine h.within (fun origin table result htable hchange => ?_) hassign
  split at hchange
  · nomatch hchange
  · obtain rfl := Option.some.inj hchange
    exact htable.put key hvalue

theorem openTable (h : Table.Distinct entries) (hopen : openTable path key entries = some result) :
    Table.Distinct result := by
  refine h.within (fun _ table result htable hchange => ?_) hopen
  split at hchange
  · obtain rfl := Option.some.inj hchange
    exact htable.put key nil.asValue
  · rename_i hfind
    obtain rfl := Option.some.inj hchange
    exact htable.put key (htable.find? hfind).asTable.asValue
  · nomatch hchange

theorem openItem (h : Table.Distinct entries) (hopen : openItem path key entries = some result) :
    Table.Distinct result := by
  refine h.within (fun _ table result htable hchange => ?_) hopen
  split at hchange
  · obtain rfl := Option.some.inj hchange
    exact htable.put key (.of_rows (List.forall_mem_cons.mpr ⟨nil, fun _ hrow => nomatch hrow⟩))
  · rename_i hfind
    obtain rfl := Option.some.inj hchange
    exact htable.put key (.of_rows (List.forall_mem_cons.mpr ⟨nil, (htable.find? hfind).rows⟩))
  · nomatch hchange

end Table.Distinct

/-! ### Values -/

theorem distinct_word? {word : List Char} (h : word? word = some value) : value.Distinct := by
  unfold word? at h
  split at h
  · obtain rfl := Option.some.inj h
    exact .boolean true
  split at h
  · obtain rfl := Option.some.inj h
    exact .boolean false
  rcases Option.or_eq_some_iff.mp h with h | ⟨-, h⟩
  · obtain ⟨n, -, rfl⟩ := Option.map_eq_some_iff.mp h
    exact .integer n
  rcases Option.or_eq_some_iff.mp h with h | ⟨-, h⟩
  · obtain ⟨x, -, rfl⟩ := Option.map_eq_some_iff.mp h
    exact .float x
  · obtain ⟨moment, -, rfl⟩ := Option.map_eq_some_iff.mp h
    exact .moment moment

variable {text rest : List Char}

theorem distinct_scalar? (h : scalar? text = some (value, rest)) : value.Distinct := by
  unfold scalar? at h
  split at h
  case h_5 =>
    obtain ⟨word, hword, heq⟩ := Option.map_eq_some_iff.mp h
    obtain ⟨rfl, -⟩ := Prod.mk.inj heq
    exact distinct_word? hword
  all_goals
    obtain ⟨quoted, -, heq⟩ := Option.map_eq_some_iff.mp h
    obtain ⟨rfl, -⟩ := Prod.mk.inj heq
    exact .string quoted.1

/-- What is read in so many steps is distinct. -/
structure ReadsDistinct (limit : Nat) : Prop where
  value : ∀ {depth text value rest}, valueFrom? depth limit text = some (value, rest) →
    value.Distinct
  items : ∀ {depth text items rest}, items? depth limit text = some (items, rest) →
    ∀ item ∈ items, item.Distinct
  members : ∀ {depth entries text result rest}, Table.Distinct entries →
    members? depth limit entries text = some (result, rest) → Table.Distinct result

theorem distinct_valueFrom? {limit depth : Nat} (ih : ReadsDistinct limit)
    (h : valueFrom? depth (limit + 1) text = some (value, rest)) : value.Distinct := by
  unfold valueFrom? at h
  split at h
  · obtain ⟨items, hitems, heq⟩ := Option.map_eq_some_iff.mp h
    obtain ⟨rfl, -⟩ := Prod.mk.inj heq
    exact .array (ih.items hitems)
  · obtain ⟨members, hmembers, heq⟩ := Option.map_eq_some_iff.mp h
    obtain ⟨rfl, -⟩ := Prod.mk.inj heq
    exact (ih.members .nil hmembers).asValue
  · nomatch h
  · nomatch h
  · exact distinct_scalar? h

theorem distinct_items? {limit depth : Nat} (ih : ReadsDistinct limit) {items : List Value}
    (h : items? depth (limit + 1) text = some (items, rest)) : ∀ item ∈ items, item.Distinct := by
  unfold items? at h
  split at h
  · obtain ⟨rfl, -⟩ := Prod.mk.inj (Option.some.inj h)
    exact fun _ hitem => nomatch hitem
  · obtain ⟨⟨item, after⟩, hitem, h⟩ := Option.bind_eq_some_iff.mp h
    dsimp only at h
    split at h
    · obtain ⟨more, hmore, heq⟩ := Option.map_eq_some_iff.mp h
      obtain ⟨rfl, -⟩ := Prod.mk.inj heq
      exact List.forall_mem_cons.mpr ⟨ih.value hitem, ih.items hmore⟩
    · obtain ⟨rfl, -⟩ := Prod.mk.inj (Option.some.inj h)
      exact List.forall_mem_singleton.mpr (ih.value hitem)
    · nomatch h

theorem distinct_members? {limit depth : Nat} (ih : ReadsDistinct limit)
    (hentries : Table.Distinct entries)
    (h : members? depth (limit + 1) entries text = some (result, rest)) :
    Table.Distinct result := by
  unfold members? at h
  split at h
  · obtain ⟨rfl, -⟩ := Prod.mk.inj (Option.some.inj h)
    exact hentries
  · obtain ⟨⟨key, afterKey⟩, -, h⟩ := Option.bind_eq_some_iff.mp h
    dsimp only at h
    split at h
    · obtain ⟨⟨value, afterValue⟩, hvalue, h⟩ := Option.bind_eq_some_iff.mp h
      obtain ⟨grown, hgrown, h⟩ := Option.bind_eq_some_iff.mp h
      have hdistinct := hentries.assign (ih.value hvalue) hgrown
      split at h
      · exact ih.members hdistinct h
      · obtain ⟨rfl, -⟩ := Prod.mk.inj (Option.some.inj h)
        exact hdistinct
      · nomatch h
    · nomatch h

theorem readsDistinct (limit : Nat) : ReadsDistinct limit := by
  induction limit with
  | zero =>
    -- Without a step nothing is read.
    exact ⟨(nomatch ·), (nomatch ·), fun _ => (nomatch ·)⟩
  | succ limit ih => exact ⟨distinct_valueFrom? ih, distinct_items? ih, distinct_members? ih⟩

/-! ### Lines -/

variable {r next : Reading}

theorem distinct_entry? (hr : Table.Distinct r.entries) (h : entry? r text = some (next, rest)) :
    Table.Distinct next.entries := by
  unfold entry? at h
  obtain ⟨⟨key, afterKey⟩, -, h⟩ := Option.bind_eq_some_iff.mp h
  dsimp only at h
  split at h
  · obtain ⟨⟨value, afterValue⟩, hvalue, h⟩ := Option.bind_eq_some_iff.mp h
    obtain ⟨grown, hgrown, h⟩ := Option.bind_eq_some_iff.mp h
    obtain ⟨rfl, -⟩ := Prod.mk.inj (Option.some.inj h)
    have hvalue := (readsDistinct _).value hvalue
    exact hr.within (fun _ _ _ htable hassign => htable.assign hvalue hassign) hgrown
  · nomatch h

/-- A line keeps what has been read distinct. -/
theorem distinct_content? (hr : Table.Distinct r.entries)
    (h : content? r text = some (next, rest)) : Table.Distinct next.entries := by
  unfold content? at h
  split at h
  · obtain ⟨⟨key, afterKey⟩, -, h⟩ := Option.bind_eq_some_iff.mp h
    dsimp only at h
    split at h
    · obtain ⟨opened, hopened, h⟩ := Option.bind_eq_some_iff.mp h
      obtain ⟨rfl, -⟩ := Prod.mk.inj (Option.some.inj h)
      exact hr.openItem hopened
    · nomatch h
  · obtain ⟨⟨key, afterKey⟩, -, h⟩ := Option.bind_eq_some_iff.mp h
    dsimp only at h
    split at h
    · obtain ⟨opened, hopened, h⟩ := Option.bind_eq_some_iff.mp h
      obtain ⟨rfl, -⟩ := Prod.mk.inj (Option.some.inj h)
      exact hr.openTable hopened
    · nomatch h
  · split at h
    · obtain ⟨rfl, -⟩ := Prod.mk.inj (Option.some.inj h)
      exact hr
    · exact distinct_entry? hr h

theorem distinct_lines? {limit : Nat} (hr : Table.Distinct r.entries)
    (h : lines? limit r text = some next) : Table.Distinct next.entries := by
  induction limit generalizing r text with
  | zero => nomatch h
  | succ limit ih =>
    unfold lines? at h
    split at h
    · obtain rfl := Option.some.inj h
      exact hr
    · obtain ⟨⟨read, after⟩, hread, h⟩ := Option.bind_eq_some_iff.mp h
      obtain ⟨later, -, h⟩ := Option.bind_eq_some_iff.mp h
      exact ih (distinct_content? hr hread) h

/-- What a text holds is distinct. -/
theorem distinct_read? {text : String} (h : read? text = some entries) :
    Table.Distinct entries := by
  obtain ⟨last, hlast, rfl⟩ := Option.map_eq_some_iff.mp h
  exact distinct_lines? .nil hlast

end CollectorTemplate.Toml
