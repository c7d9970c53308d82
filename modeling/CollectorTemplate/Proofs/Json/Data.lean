/-
JSON read back.

What is written as JSON is read as the data of the tree, as long as no floating-point number stands
in it, and is a tree or the value of a template key again.  No kind of value takes the text of
another: an empty list is no table, and a text that looks like a number stays a text.

* `Value.untyped?_ofTree` : the data of the value that a tree is written as;
* `TemplateValue.Same` : values that differ at most in the order in which exporters are listed;
* `read?_written` : trees and values of template keys are read back.
-/
import CollectorTemplate.Proofs.Json.Text
import CollectorTemplate.Proofs.Rendering
import CollectorTemplate.Template.Value

namespace CollectorTemplate

/-! ### Data -/

namespace Json

namespace Value

theorem itemsUntyped?_ofItems {items : List Tree}
    (h : ∀ item ∈ items, (ofTree item).untyped? = some item.data) :
    itemsUntyped? (ofItems items) = some (Tree.itemsData items) := by
  induction items with
  | nil => rfl
  | cons item items ih =>
    obtain ⟨hitem, hitems⟩ := List.forall_mem_cons.mp h
    rw [ofItems, itemsUntyped?, hitem, ih hitems]
    rfl

theorem membersUntyped?_ofEntries {entries : List (String × Tree)}
    (h : ∀ entry ∈ entries, (ofTree entry.2).untyped? = some entry.2.data) :
    membersUntyped? (ofEntries entries) = some (Tree.entriesData entries) := by
  induction entries with
  | nil => rfl
  | cons entry entries ih =>
    obtain ⟨key, value⟩ := entry
    obtain ⟨hvalue, hentries⟩ := List.forall_mem_cons.mp h
    rw [ofEntries, membersUntyped?, hvalue, ih hentries]
    rfl

/-- The value that a tree is written as has the data of the tree. -/
theorem untyped?_ofTree {tree : Tree} (h : tree.Readable) :
    (ofTree tree).untyped? = some tree.data := by
  induction tree using Tree.induction with
  | null | bool | string => rfl
  | float x => cases h
  | integer n =>
    cases h with
    | integer h => exact Number.value?_ofInteger h
  | sequence items ih =>
    cases h with
    | sequence h =>
      rw [ofTree, untyped?, itemsUntyped?_ofItems fun item hitem => ih item hitem (h item hitem)]
      rfl
  | mapping entries ih =>
    cases h with
    | mapping _ h =>
      rw [ofTree, untyped?, membersUntyped?_ofEntries fun entry hentry =>
        ih entry hentry (h entry hentry)]
      rfl

end Value

/-- A text that a tree is written as: on one line or on several. -/
def Writes (text : String) (tree : Tree) : Prop := text = tree.text ∨ text = pretty tree

/-- What is written of a tree is read as its data. -/
theorem read?_data {tree : Tree} (h : tree.Readable) (hdepth : tree.depth ≤ depthLimit)
    {text : String} (htext : Writes text tree) : read? text = some tree.data := by
  have hparse : parse? depthLimit text = some (ofTree tree) := by
    rcases htext with rfl | rfl
    · exact parse?_compact hdepth
    · exact parse?_pretty hdepth
  rw [read?, hparse]
  exact Value.untyped?_ofTree h

end Json

/-! ### Values of template keys -/

namespace TemplateValue

/-- A value as data, exporters in the order in which they are listed. -/
def listed : TemplateValue → Tree
  | .exporters trees => .mapping trees
  | value => value.tree

/-- Whether two values hold the same, whatever order exporters are listed in. -/
inductive Same : TemplateValue → TemplateValue → Prop
  | refl (value : TemplateValue) : Same value value
  | exporters {trees other : List (String × Tree)} (h : trees.Perm other) :
      Same (.exporters trees) (.exporters other)

theorem strings?_data (names : List String) :
    strings? (Tree.itemsData (names.map .string)) = some names := by
  induction names with
  | nil => rfl
  | cons name names ih =>
    rw [strings?] at ih
    rw [List.map_cons, Tree.itemsData, Tree.data, strings?, List.mapM_cons, ih]
    rfl

theorem readable_listed {value : TemplateValue} (h : value.Valid)
    (hfloat : value.listed.hasFloat = false) : value.listed.Readable := by
  cases value with
  | bool b => exact .bool b
  | integer n => exact .integer h
  | string s => exact .string s
  | list names =>
    refine .sequence fun item hitem => ?_
    obtain ⟨name, -, rfl⟩ := List.mem_map.mp hitem
    exact .string name
  | exporters trees =>
    rw [listed, Tree.hasFloat, Tree.entriesHaveFloat_eq, List.any_eq_false] at hfloat
    exact .mapping h.1 fun exporter hexporter =>
      ((h.2 exporter hexporter).exact (Bool.eq_false_iff.mpr (hfloat exporter hexporter))).readable

/-- The data of a value have the value as their type. -/
theorem ofUntyped?_data {value : TemplateValue} (h : value.Valid)
    (hfloat : value.listed.hasFloat = false) :
    ∃ other, ofUntyped? value.listed.data = some other ∧ other.Same value := by
  cases value with
  | bool b => exact ⟨_, rfl, .refl _⟩
  | integer n =>
    have hint : (Tree.integerData n).int64? = some n := by
      have hvalue : (Tree.integerData n).int? = some n := by cases n <;> rfl
      rw [Untyped.int64?, hvalue]
      exact Option.filter_some_pos h
    have hkind : ofUntyped? (Tree.integerData n) = (Tree.integerData n).int64?.map .integer := by
      cases n <;> rfl
    exact ⟨.integer n, hkind.trans (congrArg (Option.map TemplateValue.integer) hint), .refl _⟩
  | string s => exact ⟨_, rfl, .refl _⟩
  | list names => exact ⟨.list names, congrArg (Option.map _) (strings?_data names), .refl _⟩
  | exporters trees =>
    rw [listed, Tree.hasFloat, Tree.entriesHaveFloat_eq, List.any_eq_false] at hfloat
    refine ⟨.exporters (Entries.ofList trees), congrArg (Option.map _) (Tree.ofEntries?_data ?_),
      .exporters (Entries.perm_ofList h.1)⟩
    intro exporter hexporter
    exact Tree.ofUntyped?_data
      ((h.2 exporter hexporter).exact (Bool.eq_false_iff.mpr (hfloat exporter hexporter)))

end TemplateValue

namespace Json

/-- Trees and values of template keys without floating-point numbers are read back, if they are
nested as deeply as a reader of data accepts. -/
theorem read?_written :
    (∀ (tree : Tree) (text : String), tree.Valid → tree.hasFloat = false →
      tree.depth ≤ depthLimit → Writes text tree →
        (read? text).bind Tree.ofUntyped? = some tree) ∧
    ∀ (value : TemplateValue) (text : String), value.Valid → value.listed.hasFloat = false →
      value.listed.depth ≤ depthLimit → Writes text value.listed →
        ∃ other, (read? text).bind TemplateValue.ofUntyped? = some other ∧ other.Same value := by
  refine ⟨fun tree text hvalid hfloat hdepth htext => ?_,
    fun value text hvalid hfloat hdepth htext => ?_⟩
  · have hexact := hvalid.exact hfloat
    rw [read?_data hexact.readable hdepth htext]
    exact Tree.ofUntyped?_data hexact
  · rw [read?_data (value.readable_listed hvalid hfloat) hdepth htext]
    exact value.ofUntyped?_data hvalid hfloat

/-- A text that looks like a number stays a text, and empty exporters stay exporters. -/
theorem read?_written_at_port :
    (read? (Tree.text (.mapping [("label", .string "80\u0001"), ("port", .integer 80)]))).bind
        Tree.ofUntyped? = some (.mapping [("label", .string "80\u0001"), ("port", .integer 80)]) ∧
      ∃ other, (read? (pretty (TemplateValue.listed (.exporters [])))).bind
        TemplateValue.ofUntyped? = some other ∧ other.Same (.exporters []) := by
  have htree : (Tree.mapping [("label", .string "80\u0001"), ("port", .integer 80)]).Valid := by
    refine .mapping (List.pairwise_pair.mpr (by decide)) (List.forall_mem_cons.mpr ⟨.string _, ?_⟩)
    have hport : Width.signed 64 80 = true := by decide +kernel
    exact List.forall_mem_singleton.mpr (.integer hport)
  have hvalue : (TemplateValue.exporters []).Valid :=
    ⟨List.nodup_nil, fun _ h => absurd h List.not_mem_nil⟩
  obtain ⟨htrees, hvalues⟩ := read?_written
  exact ⟨htrees _ _ htree rfl (by decide) (.inl rfl),
    hvalues _ _ hvalue rfl (by decide) (.inr rfl)⟩

end Json

end CollectorTemplate
