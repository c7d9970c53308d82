/-
The root of a written document.

Of the events of a tree grows a node with the same structure, which has neither tags nor anchors.

* `Node.Represents` : the nodes that are written for a tree;
* `Growth.grows` : they grow of the events of the tree, by induction on the tree;
* `Document.ofString_write` : a written document is such a node and nothing else.
-/
import CollectorTemplate.Proofs.Yaml.Events
import CollectorTemplate.Proofs.Yaml.Stream
import CollectorTemplate.Yaml.Node

namespace CollectorTemplate.Yaml

open Scalar

mutual

/-- What a node is written for. -/
inductive Node.Represents : Node → Tree → Prop
  | leaf {tree : Tree} {style : Style} {text : List Char} (place : Mark)
      (h : leaf? tree = some (style, text)) : Node.Represents (.scalar place none style text) tree
  | sequence {nodes : List Node} {items : List Tree} (place : Mark)
      (h : Node.RepresentsItems nodes items) :
      Node.Represents (.sequence place none nodes) (.sequence items)
  | mapping {nodes : List (Node × Node)} {entries : List (String × Tree)} (place : Mark)
      (h : Node.RepresentsEntries nodes entries) :
      Node.Represents (.mapping place none nodes) (.mapping entries)

inductive Node.RepresentsItems : List Node → List Tree → Prop
  | nil : Node.RepresentsItems [] []
  | cons {node : Node} {item : Tree} {nodes : List Node} {items : List Tree}
      (head : Node.Represents node item) (tail : Node.RepresentsItems nodes items) :
      Node.RepresentsItems (node :: nodes) (item :: items)

inductive Node.RepresentsEntries : List (Node × Node) → List (String × Tree) → Prop
  | nil : Node.RepresentsEntries [] []
  | cons {key : String} {node : Node} {value : Tree} {nodes : List (Node × Node)}
      {entries : List (String × Tree)} (place : Mark) (head : Node.Represents node value)
      (tail : Node.RepresentsEntries nodes entries) :
      Node.RepresentsEntries
        ((.scalar place none (styleOf key.toList) key.toList, node) :: nodes)
        ((key, value) :: entries)

end

namespace Document

/-! ### Anchors -/

/-- Whether an event has to do with anchors. -/
def isBare (event : Event) : Bool :=
  match event with
  | .reference _ => false
  | event => (anchorOf event).isNone

/-- An event without a number. -/
def bare (e : PlacedEvent) : Numbered := ⟨e.event, e.place, none⟩

theorem slot_bare {events : List PlacedEvent} (h : events.all (isBare ·.event) = true)
    (naming : Naming) : slot events naming = (events.map bare, none, naming) := by
  induction events with
  | nil => rfl
  | cons e events ih =>
    obtain ⟨event, place⟩ := e
    obtain ⟨hevent, hevents⟩ := Bool.and_eq_true_iff.mp h
    cases event with
    | reference name => nomatch hevent
    | sequenceEnd | mappingEnd => simp [slot, anchorOf, ih hevents, bare]
    | scalar | sequenceStart | mappingStart =>
      have hanchor := Option.isNone_iff_eq_none.mp hevent
      simp [slot, hanchor, ih hevents, bare]

theorem number_bare {events : List PlacedEvent} (h : events.all (isBare ·.event) = true) :
    number events = (events.map bare, none) := by
  have hresolve (naming : Naming) (e : PlacedEvent) (he : isBare e.event = true) :
      (bare e).resolve naming = bare e := by
    obtain ⟨event, place⟩ := e
    cases event with
    | reference name => nomatch he
    | _ => rfl
  rw [number, slot_bare h]
  simp only [List.map_map, Prod.mk.injEq, and_true]
  exact List.map_congr_left fun e he => hresolve _ e (List.all_eq_true.mp h e he)

/-- No event of a tree has to do with anchors. -/
theorem all_isBare_events (tree : Tree) : tree.events.all isBare = true := by
  induction tree using Tree.induction with
  | sequence items ih =>
    have hitems : (Tree.itemEvents items).all isBare = true := by
      induction items with
      | nil => rfl
      | cons item items ih' =>
        obtain ⟨hitem, hitems⟩ := List.forall_mem_cons.mp ih
        simp [Tree.itemEvents, hitem, ih' hitems]
    simp [Tree.events, hitems, isBare, anchorOf]
  | mapping entries ih =>
    have hentries : (Tree.entryEvents entries).all isBare = true := by
      induction entries with
      | nil => rfl
      | cons entry entries ih' =>
        obtain ⟨key, value⟩ := entry
        obtain ⟨hvalue, hentries⟩ := List.forall_mem_cons.mp ih
        simp [Tree.entryEvents, hvalue, ih' hentries, isBare, anchorOf]
    simp [Tree.events, hentries, isBare, anchorOf]
  | _ => rfl

/-! ### Growth -/

namespace Growth

/-- A node for the tree grows of events. -/
def Grows (events : List PlacedEvent) (tree : Tree) : Prop :=
  ∃ node : Node, node.Represents tree ∧
    ∀ g : Growth, (events.map bare).foldl step g = g.add node

/-- The items of an open sequence. -/
theorem grows_items {items : List Tree}
    (hitems : ∀ item ∈ items, ∀ events : List PlacedEvent, events.map (·.event) = item.events →
      Grows events item)
    {events : List PlacedEvent} (h : events.map (·.event) = Tree.itemEvents items) :
    ∃ nodes, Node.RepresentsItems nodes items ∧
      ∀ place before outer root anchors,
        (events.map bare).foldl step ⟨.sequence place none none before :: outer, root, anchors⟩ =
          ⟨.sequence place none none (nodes.reverse ++ before) :: outer, root, anchors⟩ := by
  induction items generalizing events with
  | nil =>
    obtain rfl := List.map_eq_nil_iff.mp h
    exact ⟨[], .nil, fun _ _ _ _ _ => rfl⟩
  | cons item items ih =>
    obtain ⟨hitem, hitems⟩ := List.forall_mem_cons.mp hitems
    obtain ⟨first, later, rfl, hfirst, hlater⟩ := List.map_eq_append_iff.mp h
    obtain ⟨node, hnode, hgrows⟩ := hitem first hfirst
    obtain ⟨nodes, hnodes, hgrown⟩ := ih hitems hlater
    refine ⟨node :: nodes, .cons hnode hnodes, fun place before outer root anchors => ?_⟩
    rw [List.map_append, List.foldl_append, hgrows]
    simp [add, hgrown]

/-- The entries of an open mapping. -/
theorem grows_entries {entries : List (String × Tree)}
    (hvalues : ∀ entry ∈ entries, ∀ events : List PlacedEvent,
      events.map (·.event) = entry.2.events → Grows events entry.2)
    {events : List PlacedEvent} (h : events.map (·.event) = Tree.entryEvents entries) :
    ∃ nodes, Node.RepresentsEntries nodes entries ∧
      ∀ place before outer root anchors,
        (events.map bare).foldl step
            ⟨.mapping place none none before none :: outer, root, anchors⟩ =
          ⟨.mapping place none none (nodes.reverse ++ before) none :: outer, root, anchors⟩ := by
  induction entries generalizing events with
  | nil =>
    obtain rfl := List.map_eq_nil_iff.mp h
    exact ⟨[], .nil, fun _ _ _ _ _ => rfl⟩
  | cons entry entries ih =>
    obtain ⟨key, value⟩ := entry
    obtain ⟨hvalue, hvalues⟩ := List.forall_mem_cons.mp hvalues
    obtain ⟨⟨_, place⟩, events, rfl, rfl, hevents⟩ := List.map_eq_cons_iff.mp h
    obtain ⟨first, later, rfl, hfirst, hlater⟩ := List.map_eq_append_iff.mp hevents
    obtain ⟨node, hnode, hgrows⟩ := hvalue first hfirst
    obtain ⟨nodes, hnodes, hgrown⟩ := ih hvalues hlater
    refine ⟨_, .cons place hnode hnodes, fun place before outer root anchors => ?_⟩
    rw [List.map_cons, List.foldl_cons, List.map_append, List.foldl_append, hgrows]
    simp [bare, step, anchor, add, hgrown]

/-- Of the events of a tree grows a node for it. -/
theorem grows (tree : Tree) :
    ∀ events : List PlacedEvent, events.map (·.event) = tree.events → Grows events tree := by
  have hleaf {tree : Tree} {style : Style} {text : List Char} (h : leaf? tree = some (style, text))
      (events : List PlacedEvent) (hevents : events.map (·.event) = tree.events) :
      Grows events tree := by
    rw [Tree.events_leaf h] at hevents
    obtain ⟨⟨_, place⟩, later, rfl, rfl, hlater⟩ := List.map_eq_cons_iff.mp hevents
    obtain rfl := List.map_eq_nil_iff.mp hlater
    exact ⟨_, .leaf place h, fun _ => rfl⟩
  induction tree using Tree.induction with
  | null => exact hleaf rfl
  | bool b => exact hleaf rfl
  | integer n => exact hleaf rfl
  | float x => exact hleaf rfl
  | string s => exact hleaf rfl
  | sequence items ih =>
    intro events h
    obtain ⟨⟨_, place⟩, later, rfl, rfl, hlater⟩ := List.map_eq_cons_iff.mp h
    obtain ⟨inner, closing, rfl, hinner, hclosing⟩ := List.map_eq_append_iff.mp hlater
    obtain ⟨⟨_, behind⟩, last, rfl, rfl, hlast⟩ := List.map_eq_cons_iff.mp hclosing
    obtain rfl := List.map_eq_nil_iff.mp hlast
    obtain ⟨nodes, hnodes, hgrown⟩ := grows_items ih hinner
    refine ⟨_, .sequence place hnodes, fun g => ?_⟩
    rw [List.map_cons, List.foldl_cons, List.map_append, List.foldl_append]
    simp [bare, step, hgrown, close, anchor]
  | mapping entries ih =>
    intro events h
    obtain ⟨⟨_, place⟩, later, rfl, rfl, hlater⟩ := List.map_eq_cons_iff.mp h
    obtain ⟨inner, closing, rfl, hinner, hclosing⟩ := List.map_eq_append_iff.mp hlater
    obtain ⟨⟨_, behind⟩, last, rfl, rfl, hlast⟩ := List.map_eq_cons_iff.mp hclosing
    obtain rfl := List.map_eq_nil_iff.mp hlast
    obtain ⟨nodes, hnodes, hgrown⟩ := grows_entries ih hinner
    refine ⟨_, .mapping place hnodes, fun g => ?_⟩
    rw [List.map_cons, List.foldl_cons, List.map_append, List.foldl_append]
    simp [bare, step, hgrown, close, anchor]

end Growth

/-- A written document is a node for its tree, and nothing follows it. -/
theorem ofString_write (tree : Tree) :
    ∃ root size, root.Represents tree ∧
      Document.ofString (write tree) = { root := some root, size := size } := by
  obtain ⟨lexemes, hstream, htokens⟩ := TokenStream.ofString_write tree
  obtain ⟨events, hevents, htold⟩ := DocumentEvents.ofTokens_tree htokens
  obtain ⟨root, hroot, hgrown⟩ := Growth.grows tree events htold
  have hbare : events.all (isBare ·.event) = true := by
    have hall := all_isBare_events tree
    rw [← htold, List.all_map] at hall
    exact hall
  have hne : events ≠ [] := by
    rintro rfl
    nomatch congrArg Growth.root (hgrown {})
  refine ⟨root, events.length, hroot, ?_⟩
  rw [Document.ofString, DocumentEvents.ofString, hstream, hevents, ofEvents, number_bare hbare]
  simp [hgrown, Growth.add, hne]

end Document

end CollectorTemplate.Yaml
