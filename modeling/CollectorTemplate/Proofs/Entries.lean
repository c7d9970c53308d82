/-
Entries in the order of their keys.

A table is told by what is found in it, and the entries of any list make the table in which the last
entry of each key is found.

* `Entries.find?_foldl_put` : where entries are put one after another, the last of a key counts;
* `Entries.find?_ofList` : what is found in the table of a list;
* `Entries.ofList_eq` : a list in order is its own table;
* `Entries.ext` : tables in which the same is found are equal.
-/
import CollectorTemplate.Entries
import Mathlib.Data.List.Induction

namespace CollectorTemplate.Entries

variable {α : Type} {key k : String} {value : α} {entries other : List (String × α)}

/-- An entry of another key in front of both maps does not change how they differ at a key. -/
theorem find?_cons_of_ne {l : String} {v : α} (hne : key ≠ l)
    (h : find? k other = if k = key then some value else find? k entries) :
    find? k ((l, v) :: other) = if k = key then some value else find? k ((l, v) :: entries) := by
  rw [find?, h, find?]
  by_cases hk : k = l
  · rw [if_pos hk, if_pos hk, if_neg fun h => hne (h.symm.trans hk)]
  · rw [if_neg hk, if_neg hk]

theorem find?_insert : find? k (insert key value entries) =
    if k = key then some value else find? k entries := by
  induction entries with
  | nil => rfl
  | cons entry entries ih =>
    obtain ⟨l, v⟩ := entry
    unfold insert
    split
    · rfl
    split
    · rename_i hkey
      subst hkey
      unfold find?
      split <;> rfl
    · rename_i hne
      exact find?_cons_of_ne hne ih

/-- A name is new to a map with one more entry if it is new to the map and to that entry. -/
theorem contains_insert : contains k (insert key value entries) = false ↔
    k ≠ key ∧ contains k entries = false := by
  rw [contains, find?_insert, contains]
  by_cases hk : k = key
  · simp [hk]
  · simp [hk]

theorem mem_of_mem_insert {entry : String × α} (h : entry ∈ insert key value entries) :
    entry = (key, value) ∨ entry ∈ entries := by
  induction entries with
  | nil => exact .inl (List.mem_singleton.mp h)
  | cons first entries ih =>
    obtain ⟨l, v⟩ := first
    unfold insert at h
    split at h
    · exact List.mem_cons.mp h
    split at h
    · exact (List.mem_cons.mp h).imp_right (List.mem_cons_of_mem _)
    · rcases List.mem_cons.mp h with h | h
      · exact .inr (h ▸ List.mem_cons_self)
      · exact (ih h).imp_right (List.mem_cons_of_mem _)

theorem sorted_insert (h : Sorted entries) : Sorted (insert key value entries) := by
  induction entries with
  | nil => exact List.pairwise_singleton _ _
  | cons first entries ih =>
    obtain ⟨l, v⟩ := first
    obtain ⟨hfirst, hentries⟩ := List.pairwise_cons.mp h
    unfold insert
    split
    · rename_i hlt
      refine List.pairwise_cons.mpr ⟨List.forall_mem_cons.mpr ⟨hlt, fun e he => ?_⟩, h⟩
      exact String.lt_trans hlt (hfirst e he)
    split
    · rename_i hkey
      subst hkey
      exact List.pairwise_cons.mpr ⟨hfirst, hentries⟩
    · rename_i hlt hne
      refine List.pairwise_cons.mpr ⟨fun e he => ?_, ih hentries⟩
      rcases mem_of_mem_insert he with rfl | he
      · exact String.not_le.mp fun hle => hne (String.le_antisymm hle (String.not_lt.mp hlt))
      · exact hfirst e he

/-- A key behind all others goes to the end. -/
theorem insert_eq_append (h : ∀ e ∈ entries, e.1 < key) :
    insert key value entries = entries ++ [(key, value)] := by
  induction entries with
  | nil => rfl
  | cons first entries ih =>
    obtain ⟨l, v⟩ := first
    obtain ⟨hfirst, hentries⟩ := List.forall_mem_cons.mp h
    rw [insert, if_neg (String.lt_asymm hfirst), if_neg (String.ne_of_lt hfirst).symm, ih hentries]
    rfl

/-- A key has its place in a table, whatever its data. -/
theorem exists_insert_eq (key : String) (entries : List (String × α)) :
    ∃ front back, ∀ value, insert key value entries = front ++ (key, value) :: back := by
  induction entries with
  | nil => exact ⟨[], [], fun _ => rfl⟩
  | cons entry entries ih =>
    obtain ⟨k, v⟩ := entry
    unfold insert
    split
    · exact ⟨[], (k, v) :: entries, fun _ => rfl⟩
    split
    · exact ⟨[], entries, fun _ => rfl⟩
    · obtain ⟨front, back, h⟩ := ih
      exact ⟨(k, v) :: front, back, fun value => congrArg ((k, v) :: ·) (h value)⟩

theorem find?_eq_none (h : ∀ e ∈ entries, e.1 ≠ k) : find? k entries = none := by
  induction entries with
  | nil => rfl
  | cons first entries ih =>
    obtain ⟨hfirst, hentries⟩ := List.forall_mem_cons.mp h
    rw [find?, if_neg fun h => hfirst h.symm, ih hentries]

theorem find?_append :
    find? k (entries ++ other) = (find? k entries).or (find? k other) := by
  induction entries with
  | nil => rfl
  | cons first entries ih =>
    rw [List.cons_append, find?, find?, ih]
    split <;> rfl

theorem mem_of_find? (h : find? k entries = some value) : (k, value) ∈ entries := by
  induction entries with
  | nil => nomatch h
  | cons first entries ih =>
    unfold find? at h
    split at h
    · rename_i hk
      obtain rfl := Option.some.inj h
      exact hk ▸ List.mem_cons_self
    · exact List.mem_cons_of_mem _ (ih h)

/-- Where keys differ, an entry is what is found at its key. -/
theorem find?_of_mem (distinct : (keys entries).Nodup) (h : (k, value) ∈ entries) :
    find? k entries = some value := by
  induction entries with
  | nil => nomatch h
  | cons first entries ih =>
    obtain ⟨l, v⟩ := first
    obtain ⟨hl, hentries⟩ := List.nodup_cons.mp distinct
    rcases List.mem_cons.mp h with heq | hmem
    · obtain ⟨rfl, rfl⟩ := Prod.mk.inj heq
      exact if_pos rfl
    · have hne : k ≠ l := fun heq => hl (List.mem_map.mpr ⟨_, hmem, heq⟩)
      rw [find?, if_neg hne, ih hentries hmem]

theorem mem_keys_iff : k ∈ keys entries ↔ ∃ value, find? k entries = some value := by
  constructor
  · intro h
    cases hfound : find? k entries with
    | some value => exact ⟨value, rfl⟩
    | none =>
      induction entries with
      | nil => exact absurd h List.not_mem_nil
      | cons entry entries ih =>
        obtain ⟨l, v⟩ := entry
        rw [find?] at hfound
        split at hfound
        · cases hfound
        · rename_i hne
          rcases List.mem_cons.mp h with heq | h
          · exact absurd heq hne
          · exact ih h hfound
  · rintro ⟨value, h⟩
    exact List.mem_map.mpr ⟨_, mem_of_find? h, rfl⟩

/-- What is found at a key is in its first entry. -/
theorem find?_eq_some_iff : find? k entries = some value ↔
    ∃ front back, entries = front ++ (k, value) :: back ∧ k ∉ keys front := by
  constructor
  · intro h
    induction entries with
    | nil => nomatch h
    | cons first entries ih =>
      obtain ⟨l, v⟩ := first
      rw [find?] at h
      split at h
      · rename_i hk
        obtain rfl := Option.some.inj h
        exact ⟨[], entries, by rw [hk]; rfl, List.not_mem_nil⟩
      · rename_i hne
        obtain ⟨front, back, rfl, hfront⟩ := ih h
        exact ⟨(l, v) :: front, back, rfl, List.not_mem_cons_of_ne_of_not_mem hne hfront⟩
  · rintro ⟨front, back, rfl, hfront⟩
    have hnone : find? k front = none := find?_eq_none fun e he hkey =>
      hfront (List.mem_map.mpr ⟨e, he, hkey⟩)
    rw [find?_append, hnone, find?, if_pos rfl, Option.none_or]

/-! ### Entries in no particular order -/

theorem mem_put : (key, value) ∈ put key value entries := by
  induction entries with
  | nil => exact List.mem_singleton_self _
  | cons first entries ih =>
    obtain ⟨l, v⟩ := first
    unfold put
    split
    · exact List.mem_cons_self
    · exact List.mem_cons_of_mem _ ih

theorem mem_of_mem_put {entry : String × α} (h : entry ∈ put key value entries) :
    entry = (key, value) ∨ entry ∈ entries := by
  induction entries with
  | nil => exact .inl (List.mem_singleton.mp h)
  | cons first entries ih =>
    obtain ⟨l, v⟩ := first
    unfold put at h
    split at h
    · exact (List.mem_cons.mp h).imp_right (List.mem_cons_of_mem _)
    · rcases List.mem_cons.mp h with h | h
      · exact .inr (h ▸ List.mem_cons_self)
      · exact (ih h).imp_right (List.mem_cons_of_mem _)

theorem mem_put_of_ne {entry : String × α} (hne : key ≠ entry.1) (h : entry ∈ entries) :
    entry ∈ put key value entries := by
  induction entries with
  | nil => exact absurd h List.not_mem_nil
  | cons first entries ih =>
    obtain ⟨l, v⟩ := first
    unfold put
    rcases List.mem_cons.mp h with rfl | h
    · rw [if_neg hne]
      exact List.mem_cons_self
    · split
      · exact List.mem_cons_of_mem _ h
      · exact List.mem_cons_of_mem _ (ih h)

theorem nodup_keys_put (h : (keys entries).Nodup) : (keys (put key value entries)).Nodup := by
  induction entries with
  | nil => exact List.pairwise_singleton _ key
  | cons first entries ih =>
    obtain ⟨l, v⟩ := first
    obtain ⟨hfirst, hentries⟩ := List.nodup_cons.mp h
    unfold put
    split
    · rename_i hkey
      subst hkey
      exact h
    · rename_i hne
      refine List.nodup_cons.mpr ⟨fun hmem => ?_, ih hentries⟩
      obtain ⟨entry, hentry, hname⟩ := List.mem_map.mp hmem
      rcases mem_of_mem_put hentry with rfl | hentry
      · exact hne hname
      · exact hfirst (List.mem_map.mpr ⟨entry, hentry, hname⟩)

/-- A new key comes last. -/
theorem put_eq_append (h : key ∉ keys entries) :
    put key value entries = entries ++ [(key, value)] := by
  induction entries with
  | nil => rfl
  | cons first entries ih =>
    obtain ⟨hne, hentries⟩ := not_or.mp (List.mem_cons.not.mp h)
    rw [put, if_neg hne, ih hentries]
    rfl

/-- Distinct keys come one after another. -/
theorem foldl_put (distinct : (keys (entries ++ other)).Nodup) :
    other.foldl (fun table entry => put entry.1 entry.2 table) entries = entries ++ other := by
  -- The induction goes over what is left to put, and the table grows.
  induction other generalizing entries with
  | nil => exact (List.append_nil entries).symm
  | cons entry other ih =>
    have hnew : entry.1 ∉ keys entries := by
      rw [keys, List.map_append] at distinct
      exact fun hmem => (List.nodup_append.mp distinct).2.2 _ hmem _ List.mem_cons_self rfl
    rw [List.foldl_cons, put_eq_append hnew, ih, List.append_assoc]
    · rfl
    · rw [List.append_assoc]
      exact distinct

theorem find?_put : find? k (put key value entries) =
    if k = key then some value else find? k entries := by
  induction entries with
  | nil => rfl
  | cons first entries ih =>
    obtain ⟨l, v⟩ := first
    unfold put
    split
    · rename_i hkey
      subst hkey
      rw [find?, find?]
      split <;> rfl
    · rename_i hne
      exact find?_cons_of_ne hne ih

/-- What is put last is found first. -/
theorem find?_foldl_put : find? k (other.foldl (fun table e => put e.1 e.2 table) entries) =
    (find? k other.reverse).or (find? k entries) := by
  induction other generalizing entries with
  | nil => rfl
  | cons entry other ih =>
    rw [List.foldl_cons, ih, find?_put, List.reverse_cons, find?_append, Option.or_assoc]
    congr 1
    rw [find?]
    split <;> rfl

/-! ### Sorting -/

/-- What has distinct names and is sorted by them has strictly increasing names. -/
theorem pairwise_mergeSort {items : List α} (name : α → String)
    (distinct : (items.map name).Nodup) :
    ((items.mergeSort fun a b => name a ≤ name b).map name).Pairwise (· < ·) := by
  have hle : (items.mergeSort fun a b => name a ≤ name b).Pairwise fun a b => name a ≤ name b := by
    refine (List.pairwise_mergeSort ?_ ?_ items).imp ?_
    · intro a b c hab hbc
      simp only [decide_eq_true_eq] at hab hbc ⊢
      exact String.le_trans hab hbc
    · intro a b
      simpa using String.le_total (name a) (name b)
    · intro a b h
      simpa using h
  have hne : ((items.mergeSort fun a b => name a ≤ name b).map name).Nodup :=
    (((List.mergeSort_perm items _).map name).nodup_iff).mpr distinct
  refine (List.pairwise_map.mpr hle).imp₂ (fun a b hab hne' => ?_) hne
  exact String.not_le.mp fun hba => hne' (String.le_antisymm hab hba)

/-! ### Tables of lists -/

/-- Induction from the last entry. -/
theorem ofList_append (entry : String × α) :
    ofList (entries ++ [entry]) = insert entry.1 entry.2 (ofList entries) := by
  rw [ofList, List.foldl_append]
  rfl

theorem sorted_ofList (entries : List (String × α)) : Sorted (ofList entries) := by
  induction entries using List.reverseRecOn with
  | nil => exact .nil
  | append_singleton entries entry ih =>
    rw [ofList_append]
    exact sorted_insert ih

theorem mem_of_mem_ofList {entry : String × α} (h : entry ∈ ofList entries) : entry ∈ entries := by
  induction entries using List.reverseRecOn with
  | nil => exact h
  | append_singleton entries last ih =>
    rw [ofList_append] at h
    rcases mem_of_mem_insert h with h | h
    · simp [h]
    · simp [ih h]

/-- Of several entries with one key the last is found. -/
theorem find?_ofList : find? k (ofList entries) = find? k entries.reverse := by
  induction entries using List.reverseRecOn with
  | nil => rfl
  | append_singleton entries entry ih =>
    rw [ofList_append, find?_insert, ih, List.reverse_concat, find?]

/-- A list in order is its own table. -/
theorem ofList_eq (h : Sorted entries) : ofList entries = entries := by
  induction entries using List.reverseRecOn with
  | nil => rfl
  | append_singleton entries entry ih =>
    obtain ⟨hentries, -, hlast⟩ := List.pairwise_append.mp h
    rw [ofList_append, ih hentries]
    exact insert_eq_append fun e he => hlast e he entry (List.mem_singleton_self entry)

theorem nodup_of_sorted (h : Sorted entries) : entries.Nodup := by
  refine List.Pairwise.imp ?_ h
  rintro a b hlt rfl
  exact String.lt_irrefl a.1 hlt

theorem nodup_keys (h : Sorted entries) : (keys entries).Nodup :=
  List.pairwise_map.mpr (List.Pairwise.imp String.ne_of_lt h)

theorem mem_iff_find? (h : Sorted entries) {entry : String × α} :
    entry ∈ entries ↔ find? entry.1 entries = some entry.2 :=
  ⟨find?_of_mem (nodup_keys h), mem_of_find?⟩

/-- Tables in which the same is found are equal. -/
theorem ext (h : Sorted entries) (hother : Sorted other)
    (hfind : ∀ k, find? k entries = find? k other) : entries = other := by
  have hperm : entries.Perm other :=
    (List.perm_ext_iff_of_nodup (nodup_of_sorted h) (nodup_of_sorted hother)).mpr fun entry => by
      rw [mem_iff_find? h, mem_iff_find? hother, hfind]
  exact hperm.eq_of_pairwise (fun a b _ _ hab hba => absurd hab (String.lt_asymm hba)) h hother

/-- The order of a list with distinct keys does not matter to its table. -/
theorem find?_reverse (h : (keys entries).Nodup) : find? k entries.reverse = find? k entries := by
  induction entries with
  | nil => rfl
  | cons first entries ih =>
    obtain ⟨l, v⟩ := first
    obtain ⟨hl, hentries⟩ := List.nodup_cons.mp h
    rw [List.reverse_cons, find?_append, ih hentries, find?, find?, find?]
    by_cases hk : k = l
    · have hnone : find? k entries = none := find?_eq_none fun e he hkey =>
        hl (List.mem_map.mpr ⟨e, he, hkey.trans hk⟩)
      rw [if_pos hk, if_pos hk, hnone]
      rfl
    · rw [if_neg hk, if_neg hk, Option.or_none]

theorem find?_ofList_of_nodup (h : (keys entries).Nodup) :
    find? k (ofList entries) = find? k entries :=
  find?_ofList.trans (find?_reverse h)

theorem find?_perm (h : entries.Perm other) (distinct : (keys entries).Nodup) (k : String) :
    find? k entries = find? k other := by
  have hother : (keys other).Nodup := (h.map Prod.fst).nodup_iff.mp distinct
  refine Option.ext fun value => ⟨fun hfound => ?_, fun hfound => ?_⟩
  · exact find?_of_mem hother (h.mem_iff.mp (mem_of_find? hfound))
  · exact find?_of_mem distinct (h.mem_iff.mpr (mem_of_find? hfound))

/-- Entries in another order make the same table. -/
theorem ofList_perm (h : entries.Perm other) (distinct : (keys entries).Nodup) :
    ofList entries = ofList other := by
  have hother : (keys other).Nodup := (h.map Prod.fst).nodup_iff.mp distinct
  refine ext (sorted_ofList entries) (sorted_ofList other) fun k => ?_
  rw [find?_ofList_of_nodup distinct, find?_ofList_of_nodup hother, find?_perm h distinct]

/-- The table of a list with distinct keys is the list in another order. -/
theorem perm_ofList (h : (keys entries).Nodup) : (ofList entries).Perm entries := by
  have hsorted := sorted_ofList entries
  have hnodup : entries.Nodup :=
    List.Pairwise.of_map Prod.fst (fun a b hne heq => hne (congrArg Prod.fst heq)) h
  refine (List.perm_ext_iff_of_nodup (nodup_of_sorted hsorted) hnodup).mpr fun entry =>
    ⟨mem_of_mem_ofList, fun hmem => (mem_iff_find? hsorted).mpr ?_⟩
  rw [find?_ofList_of_nodup h, find?_of_mem h hmem]

end CollectorTemplate.Entries
