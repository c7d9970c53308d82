/-
Induction on data.

* `Tree.induction` : what holds of all leaves, and of collections when it holds of all they hold,
  holds of every tree;
* `Untyped.induction` : the same of data before it has a type, whatever keys are.
-/
import CollectorTemplate.Tree
import CollectorTemplate.Untyped

namespace CollectorTemplate

/-- Induction on the items of sequences and the values of mappings. -/
@[elab_as_elim]
theorem Tree.induction {motive : Tree → Prop} (null : motive .null) (bool : ∀ b, motive (.bool b))
    (integer : ∀ n, motive (.integer n)) (float : ∀ x, motive (.float x))
    (string : ∀ s, motive (.string s))
    (sequence : ∀ items, (∀ item ∈ items, motive item) → motive (.sequence items))
    (mapping : ∀ entries, (∀ entry ∈ entries, motive entry.2) → motive (.mapping entries))
    (tree : Tree) : motive tree :=
  Tree.rec (motive_1 := motive) (motive_2 := fun items => ∀ item ∈ items, motive item)
    (motive_3 := fun entries => ∀ entry ∈ entries, motive entry.2)
    (motive_4 := fun entry => motive entry.2) null bool integer float string sequence mapping
    (fun _ h => nomatch h) (fun _ _ item items => List.forall_mem_cons.mpr ⟨item, items⟩)
    (fun _ h => nomatch h) (fun _ _ entry entries => List.forall_mem_cons.mpr ⟨entry, entries⟩)
    (fun _ _ value => value) tree

/-- Induction on the items of sequences, the values of mappings and what is tagged. -/
@[elab_as_elim]
theorem Untyped.induction {motive : Untyped → Prop} (null : motive .null)
    (bool : ∀ b, motive (.bool b)) (natural : ∀ n, motive (.natural n))
    (negative : ∀ n, motive (.negative n)) (float : ∀ x, motive (.float x))
    (string : ∀ s, motive (.string s))
    (sequence : ∀ items, (∀ item ∈ items, motive item) → motive (.sequence items))
    (mapping : ∀ entries, (∀ entry ∈ entries, motive entry.2) → motive (.mapping entries))
    (tagged : ∀ tag value, motive value → motive (.tagged tag value)) (data : Untyped) :
    motive data :=
  Untyped.rec (motive_1 := motive) (motive_2 := fun items => ∀ item ∈ items, motive item)
    (motive_3 := fun entries => ∀ entry ∈ entries, motive entry.2)
    (motive_4 := fun entry => motive entry.2) null bool natural negative float string sequence
    mapping tagged
    (fun _ h => nomatch h) (fun _ _ item items => List.forall_mem_cons.mpr ⟨item, items⟩)
    (fun _ h => nomatch h) (fun _ _ entry entries => List.forall_mem_cons.mpr ⟨entry, entries⟩)
    (fun _ _ _ value => value) data

end CollectorTemplate
