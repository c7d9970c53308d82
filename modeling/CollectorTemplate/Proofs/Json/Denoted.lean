/-
What JSON texts denote.

A JSON text denotes the data of the value it writes, however large its numbers are and however
deeply it is nested.  What is written of a tree denotes what the tree stands for, with null for each
floating-point number that is not finite: JSON has nothing else to write for it.

* `Json.denoted?` : the data that a text denotes;
* `Json.denoted?_pretty` : those of a tree on several lines.
-/
import CollectorTemplate.Proofs.Denoted
import CollectorTemplate.Proofs.Json.Text

namespace CollectorTemplate.Json

mutual

/-- What a value denotes. -/
def Value.denoted : Value → Denoted
  | .null => .null
  | .bool b => .bool b
  | .number n => n.denoted
  | .string s => .string s
  | .array items => .sequence (itemsDenoted items)
  | .object members => .mapping (membersDenoted members)

def itemsDenoted : List Value → List Denoted
  | [] => []
  | item :: rest => item.denoted :: itemsDenoted rest

def membersDenoted : List (String × Value) → List (String × Denoted)
  | [] => []
  | (key, value) :: rest => (key, value.denoted) :: membersDenoted rest

end

/-- The data that a text denotes, none if it is no JSON.  A text is longer than it is deep. -/
def denoted? (text : String) : Option Denoted :=
  (parse? text.toList.length text).map (·.denoted)

/-! ### Values of trees -/

theorem denoted_floatValue (x : Float) : (floatValue x).denoted = (floatDenoted x).nulled := by
  cases hnan : x.isNaN with
  | true =>
    rw [floatValue, floatDenoted, hnan]
    rfl
  | false =>
    cases hinf : x.isInf with
    | true =>
      rw [floatValue, floatDenoted, hnan, hinf]
      rfl
    | false =>
      have hreal : (number.floatNumber x).denoted = .real (number.floatNumber x).written.value :=
        if_pos (number.number_isReal _ _)
      rw [floatDenoted_finite number hnan hinf, floatValue, hnan, hinf]
      exact hreal

theorem itemsDenoted_ofItems {items : List Tree}
    (h : ∀ item ∈ items, (ofTree item).denoted = item.denoted.nulled) :
    itemsDenoted (ofItems items) = Denoted.itemsNulled (Tree.itemsDenoted items) := by
  induction items with
  | nil => rfl
  | cons item items ih =>
    obtain ⟨hitem, hitems⟩ := List.forall_mem_cons.mp h
    rw [ofItems, itemsDenoted, hitem, ih hitems]
    rfl

theorem membersDenoted_ofEntries {entries : List (String × Tree)}
    (h : ∀ entry ∈ entries, (ofTree entry.2).denoted = entry.2.denoted.nulled) :
    membersDenoted (ofEntries entries) = Denoted.entriesNulled (Tree.entriesDenoted entries) := by
  induction entries with
  | nil => rfl
  | cons entry entries ih =>
    obtain ⟨key, value⟩ := entry
    obtain ⟨hvalue, hentries⟩ := List.forall_mem_cons.mp h
    rw [ofEntries, membersDenoted, hvalue, ih hentries]
    rfl

/-- The value that a tree is written as denotes what the tree stands for, except that it has null
for numbers that are not finite. -/
theorem denoted_ofTree (tree : Tree) : (ofTree tree).denoted = tree.denoted.nulled := by
  induction tree using Tree.induction with
  | null | bool | string => rfl
  | integer n => exact Number.denoted_ofInteger n
  | float x => exact denoted_floatValue x
  | sequence items ih => exact congrArg Denoted.sequence (itemsDenoted_ofItems ih)
  | mapping entries ih => exact congrArg Denoted.mapping (membersDenoted_ofEntries ih)

/-! ### Depth -/

variable (l : Layout)

theorem itemsDepth_le_length {items : List Tree} {level : Nat}
    (h : ∀ item ∈ items, item.depth ≤ (l.text level item).length) :
    Tree.itemsDepth items ≤ (l.itemsText level items).length := by
  induction items with
  | nil => exact Nat.zero_le _
  | cons item items ih =>
    obtain ⟨hitem, hitems⟩ := List.forall_mem_cons.mp h
    have hrest := ih hitems
    rw [Tree.itemsDepth]
    cases items with
    | nil =>
      rw [Layout.itemsText, List.length_append, Tree.itemsDepth]
      omega
    | cons next items =>
      rw [Layout.itemsText_cons]
      simp only [List.length_append, List.length_cons]
      omega

theorem entriesDepth_le_length {entries : List (String × Tree)} {level : Nat}
    (h : ∀ entry ∈ entries, entry.2.depth ≤ (l.text level entry.2).length) :
    Tree.entriesDepth entries ≤ (l.entriesText level entries).length := by
  induction entries with
  | nil => exact Nat.zero_le _
  | cons entry entries ih =>
    obtain ⟨key, value⟩ := entry
    have hvalue : value.depth ≤ (l.text level value).length := h (key, value) List.mem_cons_self
    have hrest := ih (List.forall_mem_cons.mp h).2
    rw [Tree.entriesDepth]
    cases entries with
    | nil =>
      rw [Layout.entriesText, Tree.entriesDepth]
      simp only [List.length_append, List.length_cons]
      omega
    | cons next entries =>
      rw [Layout.entriesText_cons]
      simp only [List.length_append, List.length_cons]
      omega

/-- A text is longer than it is deep: each collection has a bracket of its own. -/
theorem depth_le_length (tree : Tree) :
    ∀ level, tree.depth ≤ (l.text level tree).length := by
  induction tree using Tree.induction with
  | sequence items ih =>
    intro level
    have hitems := itemsDepth_le_length l fun item hitem => ih item hitem (level + 1)
    cases items with
    | nil => exact Nat.le_succ 1
    | cons item items =>
      rw [Layout.text, Tree.depth]
      simp only [List.length_append, List.length_cons]
      omega
  | mapping entries ih =>
    intro level
    have hentries := entriesDepth_le_length l fun entry hentry => ih entry hentry (level + 1)
    cases entries with
    | nil => exact Nat.le_succ 1
    | cons entry entries =>
      rw [Layout.text, Tree.depth]
      simp only [List.length_append, List.length_cons]
      omega
  | _ => exact fun _ => Nat.zero_le _

/-- What is written of a tree on several lines denotes the tree, but for numbers that are not
finite. -/
theorem denoted?_pretty (tree : Tree) : denoted? (pretty tree) = some tree.denoted.nulled := by
  have hdepth : tree.depth ≤ (pretty tree).toList.length := by
    rw [pretty, String.toList_ofList, ← Layout.text_broken]
    exact depth_le_length Layout.broken tree 0
  rw [denoted?, parse?_pretty hdepth]
  exact congrArg some (denoted_ofTree tree)

end CollectorTemplate.Json
