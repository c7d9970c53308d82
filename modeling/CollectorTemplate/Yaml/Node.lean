/-
Documents as trees.

* `Node` : a node of a document with its place, its tag and the nodes below it;
* `Document` : the root node and the nodes that aliases stand for;
* `Document.ofEvents` : the tree of a document's events.

Each anchor goes into a slot, numbered by how many different names have been met before.  An anchor
that is set again takes a new slot without adding a name, so the next new name takes the same slot
once more, and an alias stands for the node whose anchor came last into its slot.

A document whose events end early is a tree all the same: where the missing part should be stands a
`Node.broken` with the cause, and whoever reads the tree meets it there and not before.
-/
import CollectorTemplate.Yaml.Event

namespace CollectorTemplate.Yaml

/-- Why the rest of a document is missing. -/
inductive Breakage
  | fault (fault : Fault)
  | unknownAnchor (place : Mark)
  deriving Repr, DecidableEq, Inhabited

/-- A node of a document. -/
inductive Node
  | scalar (place : Mark) (tag : Option TagText) (style : Style) (text : List Char)
  | sequence (place : Mark) (tag : Option TagText) (items : List Node)
  | mapping (place : Mark) (tag : Option TagText) (entries : List (Node × Node))
  /-- The node whose anchor has this number. -/
  | reference (place : Mark) (number : Nat)
  | broken (cause : Breakage)
  deriving Inhabited

namespace Node

/-- The place of a node, the beginning of the text for a missing one. -/
def place : Node → Mark
  | scalar p .. | sequence p .. | mapping p .. | reference p _ => p
  | broken _ => {}

mutual

/-- The cause of the first missing part, if a part is missing. -/
def breakage? : Node → Option Breakage
  | scalar .. | reference .. => none
  | broken cause => some cause
  | sequence _ _ items => itemsBreakage? items
  | mapping _ _ entries => entriesBreakage? entries

/-- The cause of the first missing part of a sequence's items. -/
def itemsBreakage? : List Node → Option Breakage
  | [] => none
  | item :: items => item.breakage?.or (itemsBreakage? items)

/-- The cause of the first missing part of a mapping's entries. -/
def entriesBreakage? : List (Node × Node) → Option Breakage
  | [] => none
  | (key, value) :: entries =>
    key.breakage?.or (value.breakage?.or (entriesBreakage? entries))

end

end Node

structure Document where
  /-- The root, none if the text holds no document. -/
  root : Option Node
  /-- The nodes that have anchors, by number. -/
  anchors : List (Nat × Node) := []
  /-- How many events the document has. -/
  size : Nat := 0
  /-- What is wrong after the root's end. -/
  tail : Option Breakage := none
  /-- Whether anything follows the document. -/
  more : Bool := false
  deriving Inhabited

namespace Document

/-! ### Numbers for anchors -/

/-- An event with its anchor or alias as a number. -/
structure Numbered where
  event : Event
  place : Mark
  /-- Of an anchor, how many anchors came before it; of an alias, the anchor it stands for. -/
  number : Option Nat := none
  deriving Repr, DecidableEq, Inhabited

/-- The anchor that an event sets. -/
def anchorOf : Event → Option (List Char)
  | .scalar p .. | .sequenceStart p | .mappingStart p => p.anchor
  | _ => none

/-- The anchors met so far. -/
structure Naming where
  /-- How many different names there are. -/
  known : Nat := 0
  /-- The slot of each name, latest first. -/
  slots : List (List Char × Nat) := []
  /-- How many anchors there are. -/
  count : Nat := 0
  /-- The anchor in each slot, latest first. -/
  anchors : List (Nat × Nat) := []
  deriving Repr, DecidableEq, Inhabited

namespace Naming

/-- One more anchor: its slot is the number of names known before it. -/
def set (n : Naming) (name : List Char) : Naming where
  known := if (n.slots.lookup name).isSome then n.known else n.known + 1
  slots := (name, n.known) :: n.slots
  count := n.count + 1
  anchors := (n.known, n.count) :: n.anchors

end Naming

/-- Numbers the anchors of events, and gives aliases their slots, up to the first alias whose name
is not known. -/
def slot : List PlacedEvent → Naming → List Numbered × Option Breakage × Naming
  | [], naming => ([], none, naming)
  | ⟨.reference name, place⟩ :: rest, naming =>
    match naming.slots.lookup name with
    | none => ([], some (.unknownAnchor place), naming)
    | some n =>
      let (events, stop, naming) := slot rest naming
      (⟨.reference name, place, some n⟩ :: events, stop, naming)
  | ⟨event, place⟩ :: rest, naming =>
    match anchorOf event with
    | none =>
      let (events, stop, naming) := slot rest naming
      (⟨event, place, none⟩ :: events, stop, naming)
    | some name =>
      let (events, stop, last) := slot rest (naming.set name)
      (⟨event, place, some naming.count⟩ :: events, stop, last)

/-- An event whose alias stands for the anchor that came last into its slot. -/
def Numbered.resolve (naming : Naming) (e : Numbered) : Numbered :=
  match e.event with
  | .reference _ => { e with number := e.number.bind fun n => naming.anchors.lookup n }
  | _ => e

/-- Numbers anchors and aliases, up to the first alias whose name is not known. -/
def number (events : List PlacedEvent) : List Numbered × Option Breakage :=
  let (events, stop, naming) := slot events {}
  (events.map (.resolve naming), stop)

/-! ### Growing the tree -/

/-- A collection that is still open; what it holds so far is in reverse order. -/
inductive Open
  | sequence (place : Mark) (tag : Option TagText) (number : Option Nat) (items : List Node)
  | mapping (place : Mark) (tag : Option TagText) (number : Option Nat)
      (entries : List (Node × Node)) (key : Option Node)
  deriving Inhabited

/-- A tree in growth. -/
structure Growth where
  /-- The open collections, innermost first. -/
  opened : List Open := []
  root : Option Node := none
  anchors : List (Nat × Node) := []
  deriving Inhabited

namespace Growth

/-- Puts a finished node where it belongs. -/
def add (g : Growth) (node : Node) : Growth :=
  match g.opened with
  | [] => { g with root := some node }
  | .sequence p t n items :: outer => { g with opened := .sequence p t n (node :: items) :: outer }
  | .mapping p t n entries none :: outer =>
    { g with opened := .mapping p t n entries (some node) :: outer }
  | .mapping p t n entries (some key) :: outer =>
    { g with opened := .mapping p t n ((key, node) :: entries) none :: outer }

/-- Remembers the node of an anchor. -/
def anchor (g : Growth) (number : Option Nat) (node : Node) : Growth :=
  match number with
  | none => g
  | some n => { g with anchors := (n, node) :: g.anchors }

/-- Closes the innermost collection. -/
def close (g : Growth) : Growth :=
  match g.opened with
  | [] => g
  | .sequence p t n items :: outer =>
    let node := Node.sequence p t items.reverse
    ({ g with opened := outer }.anchor n node).add node
  | .mapping p t n entries _ :: outer =>
    let node := Node.mapping p t entries.reverse
    ({ g with opened := outer }.anchor n node).add node

/-- The tree after one more event. -/
def step (g : Growth) (e : Numbered) : Growth :=
  match e.event with
  | .reference _ => g.add (.reference e.place (e.number.getD 0))
  | .scalar p style text =>
    let node := Node.scalar e.place p.tag style text
    (g.anchor e.number node).add node
  | .sequenceStart p => { g with opened := .sequence e.place p.tag e.number [] :: g.opened }
  | .mappingStart p => { g with opened := .mapping e.place p.tag e.number [] none :: g.opened }
  | .sequenceEnd | .mappingEnd => g.close

/-- Closes all open collections around a part that is missing. -/
def breakOff (cause : Breakage) : Nat → Growth → Growth
  | 0, g => g
  | limit + 1, g =>
    match g.opened with
    | [] => g
    | .mapping _ _ _ _ (some _) :: _ => breakOff cause limit (g.add (.broken cause)).close
    | .mapping _ _ _ _ none :: _ =>
      breakOff cause limit ((g.add (.broken cause)).add (.broken cause)).close
    | .sequence .. :: _ => breakOff cause limit (g.add (.broken cause)).close

end Growth

/-- The tree of a document's events. -/
def ofEvents (d : DocumentEvents) : Document :=
  let (events, unknown) := number d.events
  let stop := unknown.or (d.fault.map .fault)
  let grown := events.foldl Growth.step {}
  let whole :=
    match stop with
    | none => grown
    | some cause => grown.breakOff cause (grown.opened.length + 1)
  { root := if events.isEmpty then stop.map .broken else whole.root
    anchors := whole.anchors
    size := events.length
    tail := stop
    more := d.more }

/-- The document that a text begins with. -/
def ofString (text : String) : Document := ofEvents (.ofString text)

end Document

end CollectorTemplate.Yaml
