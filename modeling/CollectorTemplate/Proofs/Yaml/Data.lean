/-
The data of written documents.

Each scalar means what it was written for: integers and words stand plain, and a string stands plain
only if its text means nothing else.

* `Scalar.resolve_integer` : the text of an integer means the integer;
* `Document.untyped_of_represents` : the data of a node are those of the tree it was written for, by
  induction on the tree;
* `Document.data_write` : the data of a written document.
-/
import CollectorTemplate.Proofs.Data
import CollectorTemplate.Proofs.Digits
import CollectorTemplate.Proofs.Yaml.Root

namespace CollectorTemplate.Yaml

namespace Scalar

/-! ### Integers -/

/-- What begins like a number is no word. -/
theorem resolve_of_integer? {c : Char} {rest : List Char} {meaning : Meaning}
    (hc : c.isDigit = true ∨ c = '-') (h : integer? (c :: rest) = some meaning) :
    resolve (c :: rest) = meaning := by
  have hword (words : List String)
      (hwords : (words.all fun w => w.toList.head?.all fun d => !d.isDigit && d != '-') = true) :
      words.any (·.toList == c :: rest) = false := by
    refine List.any_eq_false.mpr fun w hw => ?_
    rw [beq_iff_eq]
    intro heq
    have hhead := List.all_eq_true.mp hwords w hw
    rw [heq] at hhead
    rcases hc with hc | rfl
    · simp [hc] at hhead
    · simp at hhead
  have hnull : isNull (c :: rest) = false := hword _ (by decide)
  have hbool : bool? (c :: rest) = none := by
    rw [bool?, hword _ (by decide), hword _ (by decide)]
    rfl
  simp [resolve, hnull, hbool, h]

/-- The digits of a number have no zero in front of them. -/
theorem isLeadingZero_repr (n : Nat) :
    isLeadingZero (Nat.repr n).toList = false ∧
      isLeadingZero ('-' :: (Nat.repr n).toList) = false := by
  have hdash : isLeadingZero ('-' :: (Nat.repr n).toList) = false := by
    unfold isLeadingZero
    dsimp only
    split
    · rename_i d rest hrepr
      cases n with
      | zero => nomatch hrepr
      | succ n => exact absurd (congrArg List.head? hrepr) (head_repr_ne_zero (Nat.succ_pos n))
    · rfl
  refine ⟨?_, hdash⟩
  have hsign : ∀ c rest, (Nat.repr n).toList = c :: rest → c ≠ '-' ∧ c ≠ '+' := by
    intro c rest h
    have := isDigit_of_mem_repr (n := n) (c := c) (by simp [h])
    constructor <;> (rintro rfl; nomatch this)
  unfold isLeadingZero
  split
  · exact absurd rfl (hsign _ _ ‹_›).1
  · exact absurd rfl (hsign _ _ ‹_›).2
  · exact hdash

theorem magnitude?_repr (n : Nat) : magnitude? (Nat.repr n).toList = some n := by
  rw [magnitude?, Text.radixMark?_digits fun c => isDigit_of_mem_repr]
  exact Text.radixValue?_repr n

theorem natural?_repr (bits n : Nat) :
    natural? bits (Nat.repr n).toList = (some n).filter (Width.unsigned bits) := by
  have hzero := (isLeadingZero_repr n).1
  have hsign : ∀ rest, (Nat.repr n).toList ≠ '+' :: rest := by
    intro rest hrest
    have := isDigit_of_mem_repr (n := n) (c := '+') (by simp [hrest])
    nomatch this
  unfold natural?
  split
  · exact absurd ‹_› (hsign _)
  · simp only [hzero, magnitude?_repr, Bool.false_eq_true, if_false]

theorem negative?_repr (bits n : Nat) :
    negative? bits ('-' :: (Nat.repr n).toList) =
      (some (-(n : Int))).filter (Width.signed bits) := by
  have hzero := (isLeadingZero_repr n).2
  rw [negative?, hzero, magnitude?_repr]
  rfl

theorem natural?_dash (bits : Nat) (rest : List Char) : natural? bits ('-' :: rest) = none := by
  have hvalue : Text.radixValue? 10 ('-' :: rest) = none :=
    Text.radixValue?_eq_none List.mem_cons_self fun _ hv => nomatch hv
  have hmagnitude : magnitude? ('-' :: rest) = none := hvalue
  unfold natural?
  simp [hmagnitude]

/-- What the text of an integer means. -/
def integerMeaning : Int → Meaning
  | .ofNat n => .natural n
  | .negSucc n => .negative (.negSucc n)

/-- The text of an integer means the integer. -/
theorem resolve_integer {n : Int} (h : Width.signed 64 n = true) :
    resolve (toString n).toList = integerMeaning n := by
  cases n with
  | ofNat n =>
    have hwidth := Width.unsigned_of_signed h
    obtain ⟨c, rest, hrepr, hdigits⟩ := repr_spec n
    change resolve (Nat.repr n).toList = _
    have hinteger : integer? (Nat.repr n).toList = some (.natural n) := by
      rw [integer?, natural?_repr, Option.filter_some, if_pos hwidth]
      rfl
    rw [hrepr] at hinteger ⊢
    exact resolve_of_integer? (.inl (hdigits c List.mem_cons_self)) hinteger
  | negSucc n =>
    change resolve ("-" ++ Nat.repr (n + 1)).toList = _
    rw [String.toList_append]
    refine resolve_of_integer? (.inr rfl) ?_
    have hnegative := (negative?_repr 64 (n + 1)).trans (Option.filter_some.trans (if_pos h))
    change integer? ('-' :: (Nat.repr (n + 1)).toList) = _
    rw [integer?, natural?_dash, hnegative]
    rfl

/-! ### Strings and words -/

/-- A plain string means a string. -/
theorem resolve_of_styleOf {text : List Char} (h : styleOf text = .plain) :
    resolve text = .string := by
  have hclear : isAmbiguous text = false := by
    unfold styleOf at h
    split at h
    · split at h <;> nomatch h
    split at h
    · rename_i hplain
      simpa using (Bool.and_eq_true_iff.mp hplain).2
    · split at h <;> nomatch h
  have hmeaning := (Bool.or_eq_false_iff.mp hclear).2
  split at hmeaning
  · assumption
  · nomatch hmeaning

theorem integerMeaning_data {n : Int} (h : Width.signed 64 n = true) (expected : String)
    (text : List Char) :
    meaningData expected text (integerMeaning n) = .ok (Tree.integerData n) := by
  cases n with
  | ofNat n =>
    simp only [integerMeaning, meaningData, Width.unsigned_of_signed h, if_true]
    rfl
  | negSucc n =>
    simp only [integerMeaning, meaningData, h, if_true]
    rfl

/-- A scalar means the leaf it was written for. -/
theorem meaning_leaf {tree : Tree} {style : Style} {text : List Char} (hreadable : tree.Readable)
    (h : leaf? tree = some (style, text)) (expected : String) :
    (scalarMeaning none style text).bind (meaningData expected text) = .ok tree.data := by
  cases hreadable with
  | sequence | mapping => nomatch h
  | null => obtain ⟨rfl, rfl⟩ := Prod.mk.inj (Option.some.inj h); rfl
  | bool b => obtain ⟨rfl, rfl⟩ := Prod.mk.inj (Option.some.inj h); cases b <;> rfl
  | string s =>
    obtain ⟨rfl, rfl⟩ := Prod.mk.inj (Option.some.inj h)
    have hmeaning : scalarMeaning none (styleOf s.toList) s.toList = .ok .string := by
      unfold scalarMeaning
      split
      · exact congrArg Except.ok (resolve_of_styleOf ‹_›)
      · rfl
    rw [hmeaning]
    exact congrArg (fun s => Except.ok (Untyped.string s)) String.ofList_toList
  | @integer n hn =>
    obtain ⟨rfl, rfl⟩ := Prod.mk.inj (Option.some.inj h)
    have hmeaning : scalarMeaning none .plain (toString n).toList = .ok (integerMeaning n) := by
      rw [scalarMeaning, if_pos rfl, resolve_integer hn]
    rw [hmeaning]
    exact integerMeaning_data hn expected _

end Scalar

namespace Document

variable (d : Document) (s : Strictness)

theorem untyped_scalar {style : Style} {text : List Char} {data : Untyped} {place : Mark}
    (h : (scalarMeaning none style text).bind (meaningData s.expected text) = .ok data)
    (depth : Nat) (path : Path) :
    d.untyped s depth path (.scalar place none style text) = pure data := by
  unfold untyped
  simp [target, h]

theorem untyped_leaf {tree : Tree} {style : Style} {text : List Char} (hreadable : tree.Readable)
    (h : Scalar.leaf? tree = some (style, text)) (place : Mark) (depth : Nat) (path : Path) :
    d.untyped s depth path (.scalar place none style text) = pure tree.data :=
  untyped_scalar d s (Scalar.meaning_leaf hreadable h s.expected) depth path

variable {read : Path → Node → Reads Untyped}

theorem items_of_represents {nodes : List Node} {items : List Tree}
    (hread : ∀ item ∈ items, ∀ path node, node.Represents item → read path node = pure item.data)
    (h : Node.RepresentsItems nodes items) (path : Path) (index : Nat) :
    Document.items read path index nodes = pure (Tree.itemsData items) := by
  induction items generalizing nodes index with
  | nil => cases h; rfl
  | cons item items ih =>
    obtain ⟨hitem, hitems⟩ := List.forall_mem_cons.mp hread
    cases h with
    | cons head tail =>
      rw [Document.items, hitem _ _ head, pure_bind, ih hitems tail, pure_bind]
      rfl

theorem entries_of_represents {nodes : List (Node × Node)} {items : List (String × Tree)}
    (hkey : ∀ path key node, node.Represents (.string key) → read path node = pure (.string key))
    (hread : ∀ entry ∈ items, ∀ path node, node.Represents entry.2 →
      read path node = pure entry.2.data)
    (h : Node.RepresentsEntries nodes items) (hkeys : (Entries.keys items).Nodup) (place : Mark)
    (path : Path) (seen : List Untyped)
    (hseen : ∀ other ∈ seen, ∃ k, other = .string k ∧ ∀ entry ∈ items, k ≠ entry.1) :
    Document.entries s read place path seen nodes = pure (Tree.entriesData items) := by
  induction items generalizing nodes seen with
  | nil => cases h; rfl
  | cons entry items ih =>
    obtain ⟨key, value⟩ := entry
    obtain ⟨hvalue, hvalues⟩ := List.forall_mem_cons.mp hread
    obtain ⟨hlater, hitems⟩ := List.nodup_cons.mp hkeys
    cases h with
    | cons keyPlace head tail =>
      have hnew : (seen.find? fun other => other.sameKey (.string key)) = none := by
        refine List.find?_eq_none.mpr fun other hother => ?_
        obtain ⟨k, rfl, hk⟩ := hseen other hother
        simpa [Untyped.sameKey] using hk (key, value) List.mem_cons_self
      have hseen' : ∀ other ∈ seen ++ [.string key],
          ∃ k, other = .string k ∧ ∀ entry ∈ items, k ≠ entry.1 := by
        intro other hother
        rcases List.mem_append.mp hother with hother | hother
        · obtain ⟨k, hk, hne⟩ := hseen other hother
          exact ⟨k, hk, fun entry hentry => hne entry (List.mem_cons_of_mem _ hentry)⟩
        · exact ⟨key, List.mem_singleton.mp hother, fun entry hentry heq =>
            hlater (List.mem_map.mpr ⟨entry, hentry, heq.symm⟩)⟩
      rw [Document.entries, hkey _ key _ (.leaf keyPlace rfl), pure_bind, hvalue _ _ head,
        ih hvalues tail hitems _ hseen', hnew]
      cases s.uniqueKeys <;> rfl

/-- The data of a node are those of the tree it was written for. -/
theorem untyped_of_represents {tree : Tree} (hreadable : tree.Readable) :
    ∀ {depth : Nat} {node : Node}, tree.depth ≤ depth → node.Represents tree → ∀ path,
      d.untyped s depth path node = pure tree.data := by
  have hkey (depth : Nat) (path : Path) (key : String) (node : Node)
      (h : node.Represents (.string key)) :
      d.untyped s depth path node = pure (.string key) := by
    cases h with
    | leaf place h => exact untyped_leaf d s (.string key) h place depth path
  induction tree using Tree.induction with
  | sequence items ih =>
    intro depth node hdepth h path
    cases hreadable with
    | sequence hreadable =>
      cases h with
      | leaf place h => cases h
      | sequence place hnodes =>
        obtain ⟨depth, rfl⟩ := Nat.exists_eq_add_one.mpr (Nat.zero_lt_of_lt hdepth)
        have hitems := items_of_represents
          (fun item hitem path node hnode => ih item hitem (hreadable item hitem)
            (Nat.le_trans (Tree.depth_le_itemsDepth hitem) (Nat.le_of_succ_le_succ hdepth))
            hnode path) hnodes path 0
        unfold untyped
        simp [target, hitems, Tree.data]
  | mapping entries ih =>
    intro depth node hdepth h path
    cases hreadable with
    | mapping hkeys hreadable =>
      cases h with
      | leaf place h => cases h
      | mapping place hnodes =>
        obtain ⟨depth, rfl⟩ := Nat.exists_eq_add_one.mpr (Nat.zero_lt_of_lt hdepth)
        have hentries := entries_of_represents s (hkey depth)
          (fun entry hentry path node hnode => ih entry hentry (hreadable entry hentry)
            (Nat.le_trans (Tree.depth_le_entriesDepth hentry) (Nat.le_of_succ_le_succ hdepth))
            hnode path) hnodes hkeys place path [] (fun _ h => absurd h List.not_mem_nil)
        unfold untyped
        simp [target, hentries, Tree.data]
  | _ =>
    intro depth node _ h path
    cases h with
    | leaf place h => exact untyped_leaf d s hreadable h place depth path

/-- A written document is read as the data of its tree. -/
theorem data_write {tree : Tree} (hreadable : tree.Readable) (hdepth : tree.depth ≤ depthLimit)
    (s : Strictness) : (Document.ofString (write tree)).data s = .ok tree.data := by
  obtain ⟨root, size, hroot, hdocument⟩ := ofString_write tree
  rw [hdocument, data, decode]
  simp only [untyped_of_represents _ s hreadable hdepth hroot]
  rfl

end Document

end CollectorTemplate.Yaml
