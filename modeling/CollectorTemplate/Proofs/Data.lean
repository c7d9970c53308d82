/-
Trees as data.

What is written of a tree is read as its data first, and becomes a tree again.

* `Tree.data` : the data of a tree;
* `Tree.Valid` : what holds of all trees: integers of 64 bits, and keys in their order;
* `Tree.Exact` : the valid trees without floating-point numbers, which lose nothing on the way;
* `Tree.Readable` : the same with keys in any order;
* `Fragment.convert_data`, `Tree.ofUntyped?_data` : data of a tree become the tree in both ways.
-/
import CollectorTemplate.Fragment
import CollectorTemplate.Proofs.Entries
import CollectorTemplate.Proofs.Tree
import CollectorTemplate.Tree.Typing

namespace CollectorTemplate

namespace Width

theorem unsigned_of_signed {n : Nat} (h : signed 64 n = true) : unsigned 64 n = true := by
  obtain ⟨-, h⟩ := Bool.and_eq_true_iff.mp h
  have hsize : size (64 - 1) ≤ size 64 := Nat.pow_le_pow_right Nat.two_pos (by decide)
  exact decide_eq_true (Nat.lt_of_lt_of_le (Int.ofNat_lt.mp (of_decide_eq_true h)) hsize)

theorem unsigned_of_signed_neg {n : Nat} (h : signed 64 (-(n : Int)) = true) :
    unsigned 64 n = true := by
  obtain ⟨h, -⟩ := Bool.and_eq_true_iff.mp h
  have hle : n ≤ size (64 - 1) := by
    have := of_decide_eq_true h
    omega
  have hsize : size (64 - 1) < size 64 := Nat.pow_lt_pow_right (by decide) (by decide)
  exact decide_eq_true (Nat.lt_of_le_of_lt hle hsize)

/-- What fits into some bits fits into more. -/
theorem unsigned_of_le {few many n : Nat} (hbits : few ≤ many) (h : unsigned few n = true) :
    unsigned many n = true := by
  have hsize : size few ≤ size many := Nat.pow_le_pow_right Nat.two_pos hbits
  exact decide_eq_true (Nat.lt_of_lt_of_le (of_decide_eq_true h) hsize)

/-- What fits into some bits with sign fits into more. -/
theorem signed_of_le {few many : Nat} (hbits : few ≤ many) {n : Int} (h : signed few n = true) :
    signed many n = true := by
  have hsize : size (few - 1) ≤ size (many - 1) :=
    Nat.pow_le_pow_right Nat.two_pos (Nat.sub_le_sub_right hbits 1)
  obtain ⟨hlow, hhigh⟩ := Bool.and_eq_true_iff.mp h
  refine Bool.and_eq_true_iff.mpr ⟨decide_eq_true ?_, decide_eq_true ?_⟩
  · have := of_decide_eq_true hlow
    omega
  · have := of_decide_eq_true hhigh
    omega

end Width

namespace Tree

/-- The data of an integer. -/
def integerData : Int → Untyped
  | .ofNat n => .natural n
  | .negSucc n => .negative (.negSucc n)

mutual

/-- The data of a tree. -/
def data : Tree → Untyped
  | .null => .null
  | .bool b => .bool b
  | .integer n => integerData n
  | .float x => .float x
  | .string s => .string s
  | .sequence items => .sequence (itemsData items)
  | .mapping entries => .mapping (entriesData entries)

def itemsData : List Tree → List Untyped
  | [] => []
  | item :: rest => item.data :: itemsData rest

def entriesData : List (String × Tree) → List (Untyped × Untyped)
  | [] => []
  | (key, value) :: rest => (.string key, value.data) :: entriesData rest

end

/-- The integers of a tree have 64 bits with sign, and the keys of its mappings strictly increase.
  -/
inductive Valid : Tree → Prop
  | null : Valid .null
  | bool (b : Bool) : Valid (.bool b)
  | integer {n : Int} (h : Width.signed 64 n = true) : Valid (.integer n)
  | float (x : Float) : Valid (.float x)
  | string (s : String) : Valid (.string s)
  | sequence {items : List Tree} (h : ∀ item ∈ items, Valid item) : Valid (.sequence items)
  | mapping {entries : List (String × Tree)} (hsorted : Entries.Sorted entries)
      (h : ∀ entry ∈ entries, Valid entry.2) : Valid (.mapping entries)

mutual

/-- Whether a floating-point number stands in a tree. -/
def hasFloat : Tree → Bool
  | .float _ => true
  | .sequence items => itemsHaveFloat items
  | .mapping entries => entriesHaveFloat entries
  | _ => false

def itemsHaveFloat : List Tree → Bool
  | [] => false
  | item :: rest => item.hasFloat || itemsHaveFloat rest

def entriesHaveFloat : List (String × Tree) → Bool
  | [] => false
  | (_, value) :: rest => value.hasFloat || entriesHaveFloat rest

end

/-- The valid trees without floating-point numbers. -/
inductive Exact : Tree → Prop
  | null : Exact .null
  | bool (b : Bool) : Exact (.bool b)
  | integer {n : Int} (h : Width.signed 64 n = true) : Exact (.integer n)
  | string (s : String) : Exact (.string s)
  | sequence {items : List Tree} (h : ∀ item ∈ items, Exact item) : Exact (.sequence items)
  | mapping {entries : List (String × Tree)} (hsorted : Entries.Sorted entries)
      (h : ∀ entry ∈ entries, Exact entry.2) : Exact (.mapping entries)

theorem itemsHaveFloat_eq (items : List Tree) : itemsHaveFloat items = items.any hasFloat := by
  induction items with
  | nil => rfl
  | cons item items ih => rw [itemsHaveFloat, ih, List.any_cons]

theorem entriesHaveFloat_eq (entries : List (String × Tree)) :
    entriesHaveFloat entries = entries.any (·.2.hasFloat) := by
  induction entries with
  | nil => rfl
  | cons entry entries ih =>
    obtain ⟨key, value⟩ := entry
    rw [entriesHaveFloat, ih, List.any_cons]

theorem Valid.exact {tree : Tree} (h : tree.Valid) (hfloat : tree.hasFloat = false) :
    tree.Exact := by
  induction tree using Tree.induction with
  | null => exact .null
  | bool b => exact .bool b
  | integer n => cases h with | integer h => exact .integer h
  | float x => nomatch hfloat
  | string s => exact .string s
  | sequence items ih =>
    cases h with
    | sequence h =>
      rw [hasFloat, itemsHaveFloat_eq, List.any_eq_false] at hfloat
      exact .sequence fun item hitem =>
        ih item hitem (h item hitem) (Bool.eq_false_iff.mpr (hfloat item hitem))
  | mapping entries ih =>
    cases h with
    | mapping hsorted h =>
      rw [hasFloat, entriesHaveFloat_eq, List.any_eq_false] at hfloat
      exact .mapping hsorted fun entry hentry =>
        ih entry hentry (h entry hentry) (Bool.eq_false_iff.mpr (hfloat entry hentry))

/-- The trees whose data keep all of them: integers of 64 bits, no floating-point numbers, and no
  key
twice.  Unlike exact trees they may have their keys in any order. -/
inductive Readable : Tree → Prop
  | null : Readable .null
  | bool (b : Bool) : Readable (.bool b)
  | integer {n : Int} (h : Width.signed 64 n = true) : Readable (.integer n)
  | string (s : String) : Readable (.string s)
  | sequence {items : List Tree} (h : ∀ item ∈ items, Readable item) : Readable (.sequence items)
  | mapping {entries : List (String × Tree)} (hkeys : (Entries.keys entries).Nodup)
      (h : ∀ entry ∈ entries, Readable entry.2) : Readable (.mapping entries)

theorem Exact.readable {tree : Tree} (h : tree.Exact) : tree.Readable := by
  induction tree using Tree.induction with
  | null => exact .null
  | bool b => exact .bool b
  | integer n => cases h with | integer h => exact .integer h
  | float x => nomatch h
  | string s => exact .string s
  | sequence items ih =>
    cases h with
    | sequence h => exact .sequence fun item hitem => ih item hitem (h item hitem)
  | mapping entries ih =>
    cases h with
    | mapping hsorted h =>
      exact .mapping (Entries.nodup_keys hsorted) fun entry hentry => ih entry hentry
        (h entry hentry)

/-! ### Depth -/

mutual

/-- How deeply collections are nested. -/
def depth : Tree → Nat
  | .sequence items => itemsDepth items + 1
  | .mapping entries => entriesDepth entries + 1
  | _ => 0

def itemsDepth : List Tree → Nat
  | [] => 0
  | item :: rest => max item.depth (itemsDepth rest)

def entriesDepth : List (String × Tree) → Nat
  | [] => 0
  | (_, value) :: rest => max value.depth (entriesDepth rest)

end

theorem depth_le_itemsDepth {items : List Tree} {item : Tree} (h : item ∈ items) :
    item.depth ≤ itemsDepth items := by
  induction items with
  | nil => nomatch h
  | cons first items ih =>
    rcases List.mem_cons.mp h with rfl | h
    · exact Nat.le_max_left _ _
    · exact Nat.le_trans (ih h) (Nat.le_max_right _ _)

theorem depth_le_entriesDepth {entries : List (String × Tree)} {entry : String × Tree}
    (h : entry ∈ entries) : entry.2.depth ≤ entriesDepth entries := by
  induction entries with
  | nil => nomatch h
  | cons first entries ih =>
    rcases List.mem_cons.mp h with rfl | h
    · exact Nat.le_max_left _ _
    · exact Nat.le_trans (ih h) (Nat.le_max_right _ _)

end Tree

/-! ### Trees again -/

open CollectorTemplate.Tree

/-- In a list in order the next key is not yet found, and goes behind those before it. -/
theorem Entries.next_of_sorted {α : Type} {found rest : List (String × α)} {key : String}
    {value : α}
    (h : Entries.Sorted (found ++ (key, value) :: rest)) :
    (∀ e ∈ found, e.1 < key) ∧ Entries.Sorted ((found ++ [(key, value)]) ++ rest) := by
  refine ⟨fun e he => ?_, by simpa using h⟩
  exact (List.pairwise_append.mp h).2.2 e he (key, value) List.mem_cons_self

namespace Fragment

theorem convertItems_data {items : List Tree}
    (h : ∀ item ∈ items, convert item.data = .ok item) :
    convertItems (itemsData items) = .ok items := by
  induction items with
  | nil => rfl
  | cons item items ih =>
    obtain ⟨hitem, hitems⟩ := List.forall_mem_cons.mp h
    rw [itemsData, convertItems, hitem, ih hitems]
    rfl

theorem convertEntries_data (found : List (String × Tree)) {entries : List (String × Tree)}
    (hsorted : Entries.Sorted (found ++ entries))
    (h : ∀ entry ∈ entries, convert entry.2.data = .ok entry.2) :
    convertEntries found (entriesData entries) = .ok (found ++ entries) := by
  induction entries generalizing found with
  | nil => rw [entriesData, convertEntries, List.append_nil]
  | cons entry entries ih =>
    obtain ⟨key, value⟩ := entry
    obtain ⟨hvalue, hentries⟩ := List.forall_mem_cons.mp h
    obtain ⟨hfound, hnext⟩ := Entries.next_of_sorted hsorted
    have hnew : Entries.contains key found = false := by
      rw [Entries.contains, Entries.find?_eq_none fun e he => String.ne_of_lt (hfound e he)]
      rfl
    rw [entriesData, convertEntries]
    simp only [keyText, hnew, Bool.false_eq_true, if_false, hvalue,
      Entries.insert_eq_append hfound]
    exact (ih _ hnext hentries).trans (by simp)

/-- The data of a tree is converted to the tree. -/
theorem convert_data {tree : Tree} (h : tree.Exact) : convert tree.data = .ok tree := by
  induction tree using Tree.induction with
  | null | bool | string => rfl
  | float x => nomatch h
  | integer n =>
    cases h with
    | integer h =>
      cases n with
      | ofNat n => exact congrArg Except.ok (if_pos h)
      | negSucc n => exact congrArg Except.ok (if_pos h)
  | sequence items ih =>
    cases h with
    | sequence h =>
      rw [data, convert, convertItems_data fun item hitem => ih item hitem (h item hitem)]
      rfl
  | mapping entries ih =>
    cases h with
    | mapping hsorted h =>
      rw [data, convert, convertEntries_data [] hsorted fun entry hentry =>
        ih entry hentry (h entry hentry)]
      rfl

end Fragment

namespace Tree

theorem ofItems?_data {items : List Tree} (h : ∀ item ∈ items, ofUntyped? item.data = some item) :
    ofItems? (itemsData items) = some items := by
  induction items with
  | nil => rfl
  | cons item items ih =>
    obtain ⟨hitem, hitems⟩ := List.forall_mem_cons.mp h
    rw [itemsData, ofItems?, hitem, ih hitems]
    rfl

/-- The data of entries make a table, into which they go one by one. -/
theorem ofEntries?_data {entries : List (String × Tree)}
    (h : ∀ entry ∈ entries, ofUntyped? entry.2.data = some entry.2) :
    ofEntries? [] (entriesData entries) = some (Entries.ofList entries) := by
  have hinsert (found : List (String × Tree)) : ofEntries? found (entriesData entries) =
      some (entries.foldl (fun table e => Entries.insert e.1 e.2 table) found) := by
    induction entries generalizing found with
    | nil => rfl
    | cons entry entries ih =>
      obtain ⟨key, value⟩ := entry
      obtain ⟨hvalue, hentries⟩ := List.forall_mem_cons.mp h
      rw [entriesData, ofEntries?, hvalue]
      exact ih hentries _
  exact hinsert []

/-- The data of a tree has the tree as its type. -/
theorem ofUntyped?_data {tree : Tree} (h : tree.Exact) : ofUntyped? tree.data = some tree := by
  induction tree using Tree.induction with
  | null | bool | string => rfl
  | float x => nomatch h
  | integer n =>
    cases h with
    | integer h =>
      cases n with
      | ofNat n => exact congrArg some (if_pos h)
      | negSucc n => exact congrArg some (if_pos h)
  | sequence items ih =>
    cases h with
    | sequence h =>
      rw [data, ofUntyped?, ofItems?_data fun item hitem => ih item hitem (h item hitem)]
      rfl
  | mapping entries ih =>
    cases h with
    | mapping hsorted h =>
      rw [data, ofUntyped?, ofEntries?_data fun entry hentry =>
        ih entry hentry (h entry hentry), Entries.ofList_eq hsorted]
      rfl

end Tree

end CollectorTemplate
