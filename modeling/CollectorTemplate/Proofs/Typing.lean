/-
Two ways from a text to a tree.

Data that were written as a tree can be read again in two ways.  They can be parsed like a fragment:
read strictly and converted, tags dropped and keys made texts.  Or they can be read leniently, and
each kind of data tried in turn.  Where both ways lead to a tree, it is the same; where only the
second does, a key comes twice in a mapping, and the fragment is refused for it.

* `Fragment.typed?` : the tree of a text by the second way;
* `Tree.repeats_iff` : what is repeated in data that have a tree are texts;
* `Fragment.convert_of_typed` : data that have a tree are converted to it, unless a key is repeated;
* `Fragment.parse_of_typed` : the two ways from a text.
-/
import CollectorTemplate.Proofs.Yaml.Strictness
import CollectorTemplate.Tree.Typing

namespace CollectorTemplate

/-! ### Data that have a tree -/

namespace Tree

variable {data part key : Untyped} {tree : Tree}

theorem ofItems?_eq_some {items : List Untyped} {trees : List Tree}
    (h : ofItems? items = some trees) :
    List.Forall₂ (fun item tree => ofUntyped? item = some tree) items trees := by
  induction items generalizing trees with
  | nil =>
    obtain rfl := Option.some.inj h
    exact .nil
  | cons item items ih =>
    obtain ⟨tree, htree, h⟩ := Option.bind_eq_some_iff.mp h
    obtain ⟨rest, hrest, h⟩ := Option.bind_eq_some_iff.mp h
    obtain rfl := Option.some.inj h
    exact .cons htree (ih hrest)

/-- An entry has a text for its key, and its value has a tree. -/
def IsTyped (entry : Untyped × Untyped) (named : String × Tree) : Prop :=
  entry.1 = .string named.1 ∧ ofUntyped? entry.2 = some named.2

theorem ofEntries?_eq_some {found table : List (String × Tree)}
    {entries : List (Untyped × Untyped)} (h : ofEntries? found entries = some table) :
    ∃ named, List.Forall₂ IsTyped entries named ∧
      table = named.foldl (fun table entry => Entries.insert entry.1 entry.2 table) found := by
  induction entries generalizing found with
  | nil =>
    obtain rfl := Option.some.inj h
    exact ⟨[], .nil, rfl⟩
  | cons entry entries ih =>
    obtain ⟨key, value⟩ := entry
    cases key with
    | string k =>
      obtain ⟨tree, htree, h⟩ := Option.bind_eq_some_iff.mp h
      obtain ⟨named, hnamed, rfl⟩ := ih h
      exact ⟨(k, tree) :: named, .cons ⟨rfl, htree⟩ hnamed, rfl⟩
    | _ => nomatch h

theorem ofUntyped?_mapping {entries : List (Untyped × Untyped)}
    (h : ofUntyped? (.mapping entries) = some tree) :
    ∃ named, List.Forall₂ IsTyped entries named ∧ tree = .ofEntries named := by
  obtain ⟨table, htable, rfl⟩ := Option.map_eq_some_iff.mp h
  obtain ⟨named, hnamed, rfl⟩ := ofEntries?_eq_some htable
  exact ⟨named, hnamed, rfl⟩

/-- What stands in data that have a tree has a tree. -/
theorem typed_of_partOf (hpart : part.PartOf data) (h : ofUntyped? data = some tree) :
    ∃ tree, ofUntyped? part = some tree := by
  induction hpart generalizing tree with
  | self => exact ⟨tree, h⟩
  | tagged tag _ _ => nomatch h
  | item hitem _ ih =>
    obtain ⟨trees, htrees, -⟩ := Option.map_eq_some_iff.mp h
    obtain ⟨other, -, hother⟩ := related_of_mem (ofItems?_eq_some htrees) hitem
    exact ih hother
  | @key entries entry hentry _ ih =>
    obtain ⟨named, hnamed, -⟩ := ofUntyped?_mapping h
    obtain ⟨other, -, hkey, -⟩ := related_of_mem hnamed hentry
    have htext : ofUntyped? entry.1 = some (.string other.1) := by rw [hkey, ofUntyped?]
    exact ih htext
  | value hentry _ ih =>
    obtain ⟨named, hnamed, -⟩ := ofUntyped?_mapping h
    obtain ⟨other, -, -, hvalue⟩ := related_of_mem hnamed hentry
    exact ih hvalue

theorem exists_string_of_typed {entries : List (Untyped × Untyped)}
    (h : ofUntyped? (.mapping entries) = some tree) {entry : Untyped × Untyped}
    (hentry : entry ∈ entries) : ∃ k, entry.1 = .string k := by
  obtain ⟨named, hnamed, -⟩ := ofUntyped?_mapping h
  obtain ⟨other, -, hkey, -⟩ := related_of_mem hnamed hentry
  exact ⟨other.1, hkey⟩

/-- Two keys that are texts are the same key if they are the same text. -/
theorem repeatedIn_iff_of_typed {entries : List (Untyped × Untyped)}
    (h : ofUntyped? (.mapping entries) = some tree) :
    Untyped.RepeatedIn (entries.map Prod.fst) key ↔
      ∃ k, key = .string k ∧ Untyped.Offends entries (.duplicateKey k) := by
  constructor
  · rintro ⟨other, hsublist, hsame⟩
    obtain ⟨both, hboth, heq⟩ := List.sublist_map_iff.mp hsublist
    obtain ⟨a, tail, rfl, rfl, htail⟩ := List.map_eq_cons_iff.mp heq.symm
    obtain ⟨b, empty, rfl, rfl, hempty⟩ := List.map_eq_cons_iff.mp htail
    obtain rfl := List.map_eq_nil_iff.mp hempty
    obtain ⟨k, hk⟩ := exists_string_of_typed h (hboth.subset List.mem_cons_self)
    obtain ⟨l, hl⟩ := exists_string_of_typed h
      (hboth.subset (List.mem_cons_of_mem _ List.mem_cons_self))
    rw [hk, hl] at hsame
    obtain rfl : k = l := beq_iff_eq.mp hsame
    exact ⟨k, hk, a, b, hboth, by rw [hk]; rfl, by rw [hl]; rfl⟩
  · rintro ⟨k, rfl, a, b, hboth, ha, hb⟩
    obtain ⟨l, hl⟩ := exists_string_of_typed h (hboth.subset List.mem_cons_self)
    obtain ⟨m, hm⟩ := exists_string_of_typed h
      (hboth.subset (List.mem_cons_of_mem _ List.mem_cons_self))
    rw [hl] at ha
    rw [hm] at hb
    obtain rfl := Option.some.inj ha
    obtain rfl := Option.some.inj hb
    have hkeys : [a, b].map Prod.fst = [.string m, .string m] := by
      rw [List.map_cons, List.map_singleton, hl, hm]
    exact ⟨.string m, hkeys ▸ hboth.map Prod.fst, beq_self_eq_true m⟩

/-- What is repeated in data that have a tree are texts. -/
theorem repeats_iff (h : ofUntyped? data = some tree) :
    data.Repeats key ↔ ∃ k, key = .string k ∧ data.Faulty (.duplicateKey k) := by
  constructor
  · rintro ⟨entries, hpart, hrepeated⟩
    obtain ⟨other, hother⟩ := typed_of_partOf hpart h
    obtain ⟨k, rfl, hoffends⟩ := (repeatedIn_iff_of_typed hother).mp hrepeated
    exact ⟨k, rfl, entries, hpart, hoffends⟩
  · rintro ⟨k, rfl, entries, hpart, hoffends⟩
    obtain ⟨other, hother⟩ := typed_of_partOf hpart h
    exact ⟨entries, hpart, (repeatedIn_iff_of_typed hother).mpr ⟨k, rfl, hoffends⟩⟩

end Tree

/-! ### Both ways -/

namespace Fragment

open Yaml (Document Mark Path)

variable {data : Untyped} {tree tree' : Tree}

/-- Two relations that lead to the same from each member of a list lead to the same lists. -/
theorem eq_of_forall₂ {α β : Type} {rel rel' : α → β → Prop} {source : List α} {left right : List β}
    (h : List.Forall₂ rel source left) (h' : List.Forall₂ rel' source right)
    (heq : ∀ a ∈ source, ∀ b c, rel a b → rel' a c → c = b) : right = left := by
  induction h generalizing right with
  | nil =>
    cases h'
    rfl
  | cons head _ ih =>
    cases h' with
    | cons head' tail' =>
      obtain ⟨hhead, htail⟩ := List.forall_mem_cons.mp heq
      rw [hhead _ _ head head', ih tail' htail]

/-- A conversion has the tree that data have by their kinds. -/
theorem convert_eq_of_typed (h : Tree.ofUntyped? data = some tree) (h' : convert data = .ok tree') :
    tree' = tree := by
  induction data using Untyped.induction generalizing tree tree' with
  | tagged => nomatch h
  | sequence items ih =>
    obtain ⟨trees, htrees, rfl⟩ := Option.map_eq_some_iff.mp h
    obtain ⟨others, hothers, h'⟩ := bind_eq_ok.mp h'
    obtain rfl := Except.ok.inj h'
    have hsame := eq_of_forall₂ (Tree.ofItems?_eq_some htrees) (convertItems_eq_ok.mp hothers)
      fun item hitem _ _ => ih item hitem
    rw [hsame]
  | mapping entries ih =>
    obtain ⟨named, hnamed, rfl⟩ := Tree.ofUntyped?_mapping h
    obtain ⟨others, hothers, -, rfl⟩ := convert_mapping_eq_ok.mp h'
    have hsame : others = named := by
      refine eq_of_forall₂ hnamed hothers fun entry hentry a b ha hb => ?_
      obtain ⟨hkey, hvalue⟩ := ha
      obtain ⟨hkey', hvalue'⟩ := hb
      rw [hkey] at hkey'
      exact Prod.ext (Option.some.inj hkey').symm (ih entry hentry hvalue hvalue')
    rw [hsame]
  | _ => exact Except.ok.inj (h'.symm.trans (congrArg Except.ok (Option.some.inj h)))

/-- Data that have a tree are converted to it, unless a key comes twice. -/
theorem convert_of_typed (h : Tree.ofUntyped? data = some tree)
    (hunique : ∀ k, ¬data.Faulty (.duplicateKey k)) : convert data = .ok tree := by
  cases hconvert : convert data with
  | ok other => rw [convert_eq_of_typed h hconvert]
  | error e =>
    have hfaulty := faulty_of_error hconvert
    cases e with
    | duplicateKey k => exact absurd hfaulty (hunique k)
    | collectionKey =>
      -- A key with a tree is a text, and no collection.
      obtain ⟨entries, hpart, entry, hentry, hcollection⟩ := hfaulty
      obtain ⟨other, hother⟩ := Tree.typed_of_partOf hpart h
      obtain ⟨k, hk⟩ := Tree.exists_string_of_typed hother hentry
      rw [hk] at hcollection
      nomatch hcollection

/-- The tree that the data of a text have by their kinds. -/
def typed? (raw : String) : Option Tree :=
  ((Document.ofString raw).data .buffer).toOption.bind Tree.ofUntyped?

/-- A key comes twice in a mapping of a text. -/
def RepeatsKey (raw key : String) : Prop :=
  ∃ data, (Document.ofString raw).data .buffer = .ok data ∧ data.Faulty (.duplicateKey key)

variable {raw : String}

/-- Where a text that is not blank has a tree by the kinds of its data, it is parsed as the same
tree, unless a key comes twice in a mapping.  Then it is refused, and the error tells such a key. -/
theorem parse_of_typed (hblank : isBlank raw = false) (h : typed? raw = some tree) :
    (∀ other, parse raw = .ok other → other = tree) ∧
    (∀ e, parse raw = .error e → ∃ key place path, RepeatsKey raw key ∧
      e = .ofReadError (.complaint (.duplicateKey (.string key)) place path)) ∧
    ((∃ e, parse raw = .error e) ↔ ∃ key, RepeatsKey raw key) := by
  obtain ⟨data, hdata, htree⟩ := Option.bind_eq_some_iff.mp h
  have hdata : (Document.ofString raw).data .buffer = .ok data := by
    cases hbuffer : (Document.ofString raw).data .buffer with
    | error e =>
      rw [hbuffer] at hdata
      nomatch hdata
    | ok other =>
      rw [hbuffer] at hdata
      rw [Option.some.inj hdata]
  have hrepeats (key : String) : RepeatsKey raw key ↔ data.Repeats (.string key) := by
    rw [Tree.repeats_iff htree]
    constructor
    · rintro ⟨other, hother, hfaulty⟩
      obtain rfl := Except.ok.inj (hdata.symm.trans hother)
      exact ⟨key, rfl, hfaulty⟩
    · rintro ⟨k, hk, hfaulty⟩
      obtain rfl := Untyped.string.inj hk
      exact ⟨data, hdata, hfaulty⟩
  rcases Document.value_of_buffer hdata with ⟨hread, hnone⟩ | ⟨key, place, path, hkey, hread⟩
  · -- Nothing is repeated, and what is read is converted.
    have hparse : parse raw = .ok tree := by
      have hunique (k : String) : ¬data.Faulty (.duplicateKey k) := fun hfaulty =>
        hnone _ ((Tree.repeats_iff htree).mpr ⟨k, rfl, hfaulty⟩)
      rw [parse, hblank, if_neg Bool.false_ne_true, read, hread]
      dsimp only
      rw [convert_of_typed htree hunique]
    rw [hparse]
    refine ⟨fun other hother => (Except.ok.inj hother).symm, nofun, iff_of_false nofun ?_⟩
    rintro ⟨key, hkey⟩
    exact hnone _ ((hrepeats key).mp hkey)
  · -- The reading stops at a key that comes again, which is a text.
    obtain ⟨k, rfl, -⟩ := (Tree.repeats_iff htree).mp hkey
    have hparse : parse raw =
        .error (.ofReadError (.complaint (.duplicateKey (.string k)) place path)) := by
      rw [parse, hblank, if_neg Bool.false_ne_true, read, hread]
    have hrepeated := (hrepeats k).mpr hkey
    rw [hparse]
    refine ⟨nofun, fun e he => ?_, iff_of_true ⟨_, rfl⟩ ⟨k, hrepeated⟩⟩
    obtain rfl := Except.error.inj he
    exact ⟨k, place, path, hrepeated, rfl⟩

/-- Texts with a tree: one without repeated keys, and one with. -/
theorem parse_of_typed_of_repeated :
    (isBlank "a: [1, x]" = false ∧
      ∃ tree, typed? "a: [1, x]" = some tree ∧ parse "a: [1, x]" = .ok tree) ∧
    isBlank "a: 1\na: 2" = false ∧ (∃ tree, typed? "a: 1\na: 2" = some tree) ∧
      ∃ key, RepeatsKey "a: 1\na: 2" key := by
  have hblank : isBlank "a: [1, x]" = false := by decide +kernel
  have hblank' : isBlank "a: 1\na: 2" = false := by decide +kernel
  have htyped : (typed? "a: [1, x]").isSome = true := by decide +kernel
  have htyped' : (typed? "a: 1\na: 2").isSome = true := by decide +kernel
  have hparse : (parse "a: [1, x]").toOption.any (fun _ => true) = true := by decide +kernel
  have hrefused : (parse "a: 1\na: 2").toOption.isNone = true := by decide +kernel
  obtain ⟨tree, htree⟩ := Option.isSome_iff_exists.mp htyped
  obtain ⟨tree', htree'⟩ := Option.isSome_iff_exists.mp htyped'
  obtain ⟨other, hother, -⟩ := exists_of_any hparse
  have hsame := (parse_of_typed hblank htree).1 other hother
  have herror : ∃ e, parse "a: 1\na: 2" = .error e := by
    cases h : parse "a: 1\na: 2" with
    | error e => exact ⟨e, rfl⟩
    | ok found =>
      rw [h] at hrefused
      nomatch hrefused
  exact ⟨⟨hblank, tree, htree, hsame ▸ hother⟩, hblank', ⟨tree', htree'⟩,
    (parse_of_typed hblank' htree').2.2.mp herror⟩

end Fragment

end CollectorTemplate
