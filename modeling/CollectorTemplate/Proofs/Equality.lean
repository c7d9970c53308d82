/-
Equality with oneself.

Equal data is found equal, with one exception.  Numbers are compared as numbers, and one that is no
number differs from itself; so does a tree with such a number in it, however deep.  Fragments can
hold one, and two assemblies of the same fragments are then different.

* `Tree.HoldsNaN` : what is no number stands in a tree;
* `Tree.equal_self_iff` : just the trees without it equal themselves;
* `Assembly.equal` : whether exporters are equal, in whatever order they are;
* `assemble_equal_iff` : just where no fragment holds it do two assemblies give the same;
* `assemble_unequal` : one that does.
-/
import CollectorTemplate.Proofs.Conversion
import CollectorTemplate.Proofs.Formats

namespace CollectorTemplate

/-! ### Numbers -/

/-- Just what is no number differs from itself. -/
theorem float_beq_self (x : Float) : (x == x) = !x.isNaN := by
  show (x.toModel.unpack.compare x.toModel.unpack == some .eq) = !x.toModel.unpack.isNaN
  cases x.toModel.unpack with
  | notANumber => rfl
  | zero sign => rfl
  | infinity sign =>
    cases sign
    · rfl
    · rfl
  | finite sign mantissa exponent hpos =>
    -- A finite number is compared by its exponent and then by its mantissa.
    have hexponent : compare exponent exponent = .eq := Std.ReflCmp.compare_self
    have hmantissa : compare mantissa mantissa = .eq := Std.ReflCmp.compare_self
    have horder : (compare exponent exponent).then (compare mantissa mantissa) = .eq := by
      rw [hexponent, hmantissa]
      rfl
    cases sign with
    | positive => exact decide_eq_true horder
    | negative => exact decide_eq_true (congrArg Ordering.swap horder)

/-! ### Trees -/

namespace Tree

variable {tree part : Tree} {items : List Tree} {entries : List (String × Tree)}

/-- What is no number stands in a tree. -/
def HoldsNaN (tree : Tree) : Prop := ∃ path x, tree.at? path = some (.float x) ∧ x.isNaN = true

/-- It is the tree itself, or stands behind a step. -/
theorem holdsNaN_iff :
    tree.HoldsNaN ↔ (∃ x, tree = .float x ∧ x.isNaN = true) ∨
      ∃ part, (∃ branch, tree.branch? branch = some part) ∧ part.HoldsNaN := by
  constructor
  · rintro ⟨_ | ⟨branch, path⟩, x, hat, hnan⟩
    · exact .inl ⟨x, Option.some.inj hat, hnan⟩
    · rw [at?, List.foldlM_cons] at hat
      obtain ⟨part, hbranch, hat⟩ := Option.bind_eq_some_iff.mp hat
      exact .inr ⟨part, ⟨branch, hbranch⟩, path, x, hat, hnan⟩
  · rintro (⟨x, rfl, hnan⟩ | ⟨part, ⟨branch, hbranch⟩, path, x, hat, hnan⟩)
    · exact ⟨[], x, rfl, hnan⟩
    · refine ⟨branch :: path, x, ?_, hnan⟩
      rw [at?, List.foldlM_cons, hbranch]
      exact hat

/-- Behind the steps into a sequence are its items. -/
theorem branch?_sequence :
    (∃ branch, (Tree.sequence items).branch? branch = some part) ↔ part ∈ items := by
  constructor
  · rintro ⟨index | key, hbranch⟩
    · exact List.mem_of_getElem? hbranch
    · nomatch hbranch
  · intro hpart
    obtain ⟨index, hindex⟩ := List.mem_iff_getElem?.mp hpart
    exact ⟨.item index, hindex⟩

/-- Behind the steps into a mapping are its values. -/
theorem branch?_mapping (h : Entries.Sorted entries) :
    (∃ branch, (Tree.mapping entries).branch? branch = some part) ↔
      ∃ entry ∈ entries, entry.2 = part := by
  constructor
  · rintro ⟨index | key, hbranch⟩
    · nomatch hbranch
    · exact ⟨(key, part), Entries.mem_of_find? hbranch, rfl⟩
  · rintro ⟨entry, hentry, rfl⟩
    exact ⟨.entry entry.1, (Entries.mem_iff_find? h).mp hentry⟩

theorem equalItems_self :
    equalItems items items = true ↔ ∀ item ∈ items, item.equal item = true := by
  induction items with
  | nil => exact ⟨fun _ _ h => absurd h List.not_mem_nil, fun _ => rfl⟩
  | cons item items ih => rw [equalItems, Bool.and_eq_true, ih, List.forall_mem_cons]

theorem equalEntries_self :
    equalEntries entries entries = true ↔ ∀ entry ∈ entries, entry.2.equal entry.2 = true := by
  induction entries with
  | nil => exact ⟨fun _ _ h => absurd h List.not_mem_nil, fun _ => rfl⟩
  | cons entry entries ih =>
    rw [equalEntries, beq_self_eq_true, Bool.true_and, Bool.and_eq_true, ih, List.forall_mem_cons]

/-- Nothing stands in what is neither a number nor a collection. -/
theorem not_holdsNaN (hfloat : ∀ x, tree ≠ .float x)
    (hbranch : ∀ branch, tree.branch? branch = none) : ¬tree.HoldsNaN := by
  rw [holdsNaN_iff]
  rintro (⟨x, heq, -⟩ | ⟨part, ⟨branch, h⟩, -⟩)
  · exact hfloat x heq
  · rw [hbranch] at h
    nomatch h

/-- Just the trees in which all numbers are numbers equal themselves. -/
theorem equal_self_iff (h : tree.Valid) : tree.equal tree = true ↔ ¬tree.HoldsNaN := by
  induction tree using Tree.induction with
  | float x =>
    rw [equal, float_beq_self, Bool.not_eq_true', ← Bool.not_eq_true]
    refine not_congr ⟨fun hnan => ⟨[], x, rfl, hnan⟩, fun hholds => ?_⟩
    rcases holdsNaN_iff.mp hholds with ⟨y, heq, hnan⟩ | ⟨part, ⟨branch, hbranch⟩, -⟩
    · obtain rfl := Tree.float.inj heq
      exact hnan
    · cases branch <;> nomatch hbranch
  | sequence items ih =>
    cases h with
    | sequence hitems =>
    rw [equal, equalItems_self, holdsNaN_iff]
    simp only [branch?_sequence]
    constructor
    · rintro hequal (⟨x, heq, -⟩ | ⟨part, hpart, hholds⟩)
      · nomatch heq
      · exact (ih part hpart (hitems part hpart)).mp (hequal part hpart) hholds
    · intro hnone item hitem
      exact (ih item hitem (hitems item hitem)).mpr fun hholds => hnone (.inr ⟨item, hitem, hholds⟩)
  | mapping entries ih =>
    cases h with
    | mapping hsorted hentries =>
    rw [equal, equalEntries_self, holdsNaN_iff]
    simp only [branch?_mapping hsorted]
    constructor
    · rintro hequal (⟨x, heq, -⟩ | ⟨_, ⟨entry, hentry, rfl⟩, hholds⟩)
      · nomatch heq
      · exact (ih entry hentry (hentries entry hentry)).mp (hequal entry hentry) hholds
    · intro hnone entry hentry
      exact (ih entry hentry (hentries entry hentry)).mpr fun hholds =>
        hnone (.inr ⟨entry.2, ⟨entry, hentry, rfl⟩, hholds⟩)
  | _ =>
    refine iff_of_true (by simp [equal]) (not_holdsNaN (fun x => Tree.noConfusion) fun branch => ?_)
    cases branch <;> rfl

end Tree

/-! ### Assemblies -/

namespace Assembly

/-- Whether two assemblies have equal exporters, in whatever order they list them. -/
def equal (a b : Assembly) : Bool :=
  a.size == b.size && a.exporters.all fun exporter => (b.get? exporter.1).any exporter.2.equal

end Assembly

/-- Assembling the same sources twice, in whatever order, gives the same just if what is no number
stands in none of the fragments; and each tree of a fragment equals itself just if it does not stand
there. -/
theorem assemble_equal_iff (reserved : ReservedNames) (ambient ambient' : Option String)
    {sources entries : Sources} (order : entries.Perm sources)
    (distinct : (Entries.keys sources).Nodup) {first : Assembly}
    (h : (assemble reserved ambient sources).value = .ok first) :
    (∃ second, (assemble reserved ambient' entries).value = .ok second ∧
      (first.equal second = true ↔ ∀ source ∈ sources, ∀ tree, Fragment.parse source.2 = .ok tree →
        ¬tree.HoldsNaN)) ∧
    ∀ raw tree, Fragment.parse raw = .ok tree → (tree.equal tree = true ↔ ¬tree.HoldsNaN) := by
  have hself (raw : String) (tree : Tree) (hparse : Fragment.parse raw = .ok tree) :=
    Tree.equal_self_iff (Fragment.valid_parse hparse)
  refine ⟨?_, hself⟩
  have hkeys : (Entries.keys entries).Perm (Entries.keys sources) := order.map Prod.fst
  obtain ⟨hnames, hparse⟩ := (assemble_ok_iff reserved ambient sources).mp ⟨first, h⟩
  obtain ⟨second, hsecond⟩ := (assemble_ok_iff reserved ambient' entries).mpr
    ⟨fun name hname => hnames name (hkeys.mem_iff.mp hname),
      fun source hsource => hparse source (order.mem_iff.mp hsource)⟩
  have v := views_of_assemble _ _ _ h
  have w := views_of_assemble _ _ _ hsecond
  have hsize : first.size = second.size :=
    v.exporters.length_eq.symm.trans (order.length_eq.symm.trans w.exporters.length_eq)
  refine ⟨second, hsecond, ?_⟩
  rw [Assembly.equal, hsize, beq_self_eq_true, Bool.true_and, List.all_eq_true,
    ← v.forall_tree_iff fun tree => ¬tree.HoldsNaN]
  refine forall₂_congr fun exporter hexporter => ?_
  -- The second assembly has the tree of the same fragment at the name.
  obtain ⟨source, hsource, hname, htree⟩ := related_of_mem v.exporters.flip hexporter
  obtain ⟨tree, htree', hfound⟩ :=
    w.get? (hkeys.nodup_iff.mpr distinct) (order.mem_iff.mpr hsource)
  obtain rfl := Except.ok.inj (htree.symm.trans htree')
  rw [hname, hfound]
  exact hself source.2 _ htree

/-- A number with a fraction is a number. -/
theorem assemble_equal_of_fraction :
    [("b", "- ~"), ("a", "x: 1.5")].Perm [("a", "x: 1.5"), ("b", "- ~")] ∧
      (Entries.keys [("a", "x: 1.5"), ("b", "- ~")]).Nodup ∧
      ∃ first second, (assemble .system none [("a", "x: 1.5"), ("b", "- ~")]).value = .ok first ∧
        (assemble .system none [("b", "- ~"), ("a", "x: 1.5")]).value = .ok second ∧
        first.equal second = true := by
  have distinct : (Entries.keys [("a", "x: 1.5"), ("b", "- ~")]).Nodup := by decide
  have hassembled : (assemble .system none [("a", "x: 1.5"), ("b", "- ~")]).value.toOption.any
      (fun _ => true) = true := by
    decide +kernel
  have hself : ∀ source ∈ [("a", "x: 1.5"), ("b", "- ~")],
      (Fragment.parse source.2).toOption.all (fun tree => tree.equal tree) = true := by
    decide +kernel
  obtain ⟨first, hfirst, -⟩ := exists_of_any hassembled
  obtain ⟨⟨second, hsecond, hequal⟩, htree⟩ :=
    assemble_equal_iff .system none none (.swap _ _ _) distinct hfirst
  refine ⟨.swap _ _ _, distinct, first, second, hfirst, hsecond,
    hequal.mpr fun source hsource tree hparse => ?_⟩
  have hself := hself source hsource
  rw [hparse] at hself
  exact (htree _ tree hparse).mp hself

/-- A fragment can say that it is no number, and its tree and all that is assembled with it differ
from themselves. -/
theorem assemble_unequal :
    (∃ tree, Fragment.parse ".nan" = .ok tree ∧ tree.equal tree = false) ∧
      ∃ assembly, (assemble .system none [("debug", ".nan")]).value = .ok assembly ∧
        assembly.equal assembly = false := by
  have hparse : (Fragment.parse ".nan").toOption.any (fun tree => !tree.equal tree) = true := by
    decide +kernel
  have hassemble : (assemble .system none [("debug", ".nan")]).value.toOption.any
      (fun assembly => !assembly.equal assembly) = true := by
    decide +kernel
  obtain ⟨tree, htree, hunequal⟩ := exists_of_any hparse
  obtain ⟨assembly, hvalue, hunequal'⟩ := exists_of_any hassemble
  exact ⟨⟨tree, htree, (Bool.not_eq_true' _).mp hunequal⟩, assembly, hvalue,
    (Bool.not_eq_true' _).mp hunequal'⟩

end CollectorTemplate
