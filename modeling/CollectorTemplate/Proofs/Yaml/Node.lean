/-
The roots of documents.

* `Growth.root_of_closes` : when the events close what they opened, the root is a collection;
* `Document.root_of_isNode` : the root of a document whose events are those of one node;
* `Document.data_accepts` : a document that is read as data is whole, and nothing follows it.
-/
import CollectorTemplate.Proofs.Yaml.Cursor
import CollectorTemplate.Proofs.Yaml.Grammar
import CollectorTemplate.Yaml.Read

namespace CollectorTemplate.Yaml

/-- Whether a node holds anything: all do but empty plain scalars, aliases and missing parts. -/
def Node.IsContent : Node → Prop
  | .scalar _ _ style text => style ≠ .plain ∨ text ≠ []
  | .sequence .. | .mapping .. => True
  | .reference .. | .broken _ => False

namespace Document

/-- The root holds anything. -/
def HoldsContent (d : Document) : Prop := ∃ root, d.root = some root ∧ root.IsContent

/-- The root is an empty plain scalar that stands for the tag or the anchor of a node without
content. -/
def OnlyProperties (d : Document) : Prop :=
  ∃ place tag, d.root = some (.scalar place tag .plain []) ∧ (tag ≠ none ∨ d.anchors ≠ [])

/-! ### Growth -/

namespace Growth

variable {g : Growth}

theorem opened_anchor (number : Option Nat) (node : Node) :
    (g.anchor number node).opened = g.opened := by
  cases number with
  | none => rfl
  | some n => rfl

/-- A finished node goes into the innermost open collection, or is the root. -/
theorem add_spec {n : Nat} (h : g.opened.length = n) (node : Node) :
    (g.add node).opened.length = n ∧ (n = 0 → (g.add node).root = some node) := by
  subst h
  unfold add
  split
  · rename_i hopened
    exact ⟨by rw [hopened], fun _ => rfl⟩
  · rename_i hopened
    exact ⟨by rw [hopened]; rfl, fun h => by rw [hopened] at h; nomatch h⟩
  · rename_i hopened
    exact ⟨by rw [hopened]; rfl, fun h => by rw [hopened] at h; nomatch h⟩
  · rename_i hopened
    exact ⟨by rw [hopened]; rfl, fun h => by rw [hopened] at h; nomatch h⟩

theorem add_anchor_spec {n : Nat} (h : g.opened.length = n) (number : Option Nat) (node : Node) :
    ((g.anchor number node).add node).opened.length = n ∧
      (n = 0 → ((g.anchor number node).add node).root = some node) :=
  add_spec (by rw [opened_anchor, h]) node

theorem close_spec {n : Nat} (h : g.opened.length = n + 1) :
    g.close.opened.length = n ∧
      (n = 0 → ∃ root, g.close.root = some root ∧ root.IsContent) := by
  unfold close
  split
  · rename_i hopened
    rw [hopened] at h
    nomatch h
  · rename_i place tag number items outer hopened
    rw [hopened] at h
    have hadd := add_anchor_spec (g := { g with opened := outer }) (Nat.succ.inj h) number
      (.sequence place tag items.reverse)
    exact ⟨hadd.1, fun hn => ⟨_, hadd.2 hn, trivial⟩⟩
  · rename_i place tag number entries key outer hopened
    rw [hopened] at h
    have hadd := add_anchor_spec (g := { g with opened := outer }) (Nat.succ.inj h) number
      (.mapping place tag entries.reverse)
    exact ⟨hadd.1, fun hn => ⟨_, hadd.2 hn, trivial⟩⟩

/-- Inside a collection an event opens or closes what it says, and the last one to be closed is the
root. -/
theorem step_spec {d d' : Nat} {e : Numbered} (hg : g.opened.length = d + 1)
    (hdepth : d' + e.event.closes = d + 1 + e.event.opens) :
    (g.step e).opened.length = d' ∧
      (d' = 0 → ∃ root, (g.step e).root = some root ∧ root.IsContent) := by
  unfold step
  cases hevent : e.event with
  | reference name =>
    rw [hevent] at hdepth
    obtain rfl : d' = d + 1 := hdepth
    exact ⟨(add_spec hg _).1, fun h => nomatch h⟩
  | scalar properties style text =>
    rw [hevent] at hdepth
    obtain rfl : d' = d + 1 := hdepth
    exact ⟨(add_anchor_spec hg _ _).1, fun h => nomatch h⟩
  | sequenceStart properties =>
    rw [hevent] at hdepth
    obtain rfl : d' = d + 2 := hdepth
    exact ⟨congrArg Nat.succ hg, fun h => nomatch h⟩
  | mappingStart properties =>
    rw [hevent] at hdepth
    obtain rfl : d' = d + 2 := hdepth
    exact ⟨congrArg Nat.succ hg, fun h => nomatch h⟩
  | sequenceEnd =>
    rw [hevent] at hdepth
    obtain rfl : d' = d := Nat.succ.inj hdepth
    exact close_spec hg
  | mappingEnd =>
    rw [hevent] at hdepth
    obtain rfl : d' = d := Nat.succ.inj hdepth
    exact close_spec hg

theorem root_of_closes {d : Nat} {events : List Numbered}
    (h : Grammar.Closes (d + 1) (events.map (·.event))) (hg : g.opened.length = d + 1) :
    ∃ root, (events.foldl step g).root = some root ∧ root.IsContent := by
  induction events generalizing g d with
  | nil => nomatch h
  | cons e events ih =>
    cases h with
    | step hdepth hrest =>
      rename_i d'
      obtain ⟨hlength, hroot⟩ := step_spec hg hdepth
      rw [List.foldl_cons]
      cases d' with
      | zero =>
        -- The event that closed the last collection was the last one.
        have hnone : events = [] := by
          cases events with
          | nil => rfl
          | cons => nomatch hrest
        rw [hnone]
        exact hroot rfl
      | succ d' => exact ih hrest hlength

end Growth

/-! ### Numbers -/

/-- Numbering changes no event, if it comes to the end. -/
theorem slot_events {events : List PlacedEvent} {naming last : Naming} {numbered : List Numbered}
    (h : slot events naming = (numbered, none, last)) :
    numbered.map (·.event) = events.map (·.event) := by
  fun_induction slot events naming generalizing numbered
  all_goals grind

theorem resolve_event (naming : Naming) (e : Numbered) : (e.resolve naming).event = e.event := by
  unfold Numbered.resolve
  split
  · rfl
  · rfl

theorem number_events {events : List PlacedEvent} (h : (number events).2 = none) :
    (number events).1.map (·.event) = events.map (·.event) := by
  unfold number at h ⊢
  rcases hslot : slot events {} with ⟨numbered, stop, last⟩
  rw [hslot] at h
  obtain rfl : stop = none := h
  rw [← slot_events hslot]
  simp [resolve_event]

/-! ### Documents -/

variable {d : Document} {events : DocumentEvents}

/-- A document that is read is whole, and nothing follows it. -/
theorem decode_accepts {α : Type} {missing : Except ReadError α} {read : Node → Reads α} {value : α}
    (h : d.decode missing read = .ok value) : d.tail = none ∧ d.more = false := by
  unfold decode at h
  dsimp only at h
  -- With a root or without, the same two checks come last.
  split at h
  all_goals
    obtain ⟨found, -, h⟩ := bind_eq_ok.mp h
    split at h
    · nomatch h
    · rename_i htail
      split at h
      · nomatch h
      · rename_i hmore
        exact ⟨htail, Bool.not_eq_true _ ▸ hmore⟩

theorem ofEvents_eq (hfault : events.fault = none) (hunknown : (number events.events).2 = none) :
    ofEvents events =
      { root := if (number events.events).1.isEmpty then none
          else ((number events.events).1.foldl Growth.step {}).root
        anchors := ((number events.events).1.foldl Growth.step {}).anchors
        size := (number events.events).1.length
        tail := none
        more := events.more } := by
  unfold ofEvents
  rcases hnumber : number events.events with ⟨numbered, unknown⟩
  rw [hnumber] at hunknown
  obtain rfl : unknown = none := hunknown
  rw [hfault]
  rfl

/-- A document is whole if its events are, and each alias stands for something. -/
theorem tail_ofEvents (h : (ofEvents events).tail = none) :
    events.fault = none ∧ (number events.events).2 = none := by
  obtain ⟨hunknown, hfault⟩ := Option.or_eq_none_iff.mp h
  exact ⟨Option.map_eq_none_iff.mp hfault, hunknown⟩

theorem root_of_nil (h : (ofEvents events).tail = none) (hevents : events.events = []) :
    (ofEvents events).root = none := by
  obtain ⟨hfault, hunknown⟩ := tail_ofEvents h
  rw [ofEvents_eq hfault hunknown, hevents]
  rfl

theorem root_of_empty {place : Mark} (h : (ofEvents events).tail = none)
    (hevents : events.events = [Grammar.empty place]) :
    (ofEvents events).root = some (.scalar place none .plain []) ∧
      (ofEvents events).anchors = [] := by
  obtain ⟨hfault, hunknown⟩ := tail_ofEvents h
  rw [ofEvents_eq hfault hunknown, hevents]
  exact ⟨rfl, rfl⟩

/-- The tree that events grow: a collection, if their first event opens one and the others close
it. -/
theorem grown_of_collection {first : PlacedEvent} {rest : List PlacedEvent}
    (hunknown : (number (first :: rest)).2 = none) (hopens : first.event.opens = 1)
    (hcloses : Grammar.Closes 1 (rest.map (·.event))) :
    (number (first :: rest)).1.isEmpty = false ∧
      ∃ root, ((number (first :: rest)).1.foldl Growth.step {}).root = some root ∧
        root.IsContent := by
  obtain ⟨e, numbered, hnumbered, he, hrest⟩ := List.map_eq_cons_iff.mp (number_events hunknown)
  rw [hnumbered]
  refine ⟨rfl, ?_⟩
  rw [List.foldl_cons]
  refine Growth.root_of_closes (d := 0) (by rw [hrest]; exact hcloses) ?_
  have he : e.event = first.event := he
  unfold Growth.step
  cases hfirst : first.event with
  | sequenceStart | mappingStart =>
    rw [he, hfirst]
    rfl
  | _ =>
    rw [hfirst] at hopens
    nomatch hopens

/-- A scalar is all there is, and its anchor is kept. -/
theorem grown_of_scalar (properties : Properties) (style : Style) (text : List Char)
    (place : Mark) :
    (number [⟨.scalar properties style text, place⟩]).1.isEmpty = false ∧
      ∃ anchors, (number [⟨.scalar properties style text, place⟩]).1.foldl Growth.step {} =
          { root := some (.scalar place properties.tag style text), anchors := anchors } ∧
        (properties.anchor ≠ none → anchors ≠ []) := by
  obtain ⟨anchor, tag⟩ := properties
  cases anchor with
  | none => exact ⟨rfl, [], rfl, fun h => absurd rfl h⟩
  | some name => exact ⟨rfl, _, rfl, fun _ => List.cons_ne_nil _ _⟩

/-- The root of a document whose events are those of one node. -/
theorem root_of_isNode (h : (ofEvents events).tail = none)
    (hnode : Grammar.IsNode events.events) :
    (ofEvents events).HoldsContent ∨ (ofEvents events).OnlyProperties := by
  obtain ⟨hfault, hunknown⟩ := tail_ofEvents h
  unfold HoldsContent OnlyProperties
  rw [ofEvents_eq hfault hunknown]
  obtain ⟨⟨first, place⟩, rest, hfirst, hbegins, hcloses⟩ := hnode
  rw [hfirst] at hunknown ⊢
  cases first with
  | reference name => nomatch hunknown
  | scalar properties style text =>
    obtain rfl : rest = [] := by
      cases rest with
      | nil => rfl
      | cons => nomatch hcloses
    obtain ⟨hsome, anchors, hgrown, hanchors⟩ := grown_of_scalar properties style text place
    rw [hsome, if_neg Bool.false_ne_true, hgrown]
    by_cases hcontent : style = .plain ∧ text = []
    · -- Without content one of the properties is there, since the scalar begins a node.
      obtain ⟨rfl, rfl⟩ := hcontent
      refine .inr ⟨place, properties.tag, rfl, ?_⟩
      by_cases htag : properties.tag = none
      · refine .inr (hanchors fun hanchor => ?_)
        obtain ⟨anchor, tag⟩ := properties
        obtain rfl : anchor = none := hanchor
        obtain rfl : tag = none := htag
        rcases hbegins with hplain | hempty | hnone
        · exact hplain rfl
        · exact hempty rfl
        · exact hnone rfl
      · exact .inl htag
    · refine .inl ⟨_, rfl, ?_⟩
      by_cases hplain : style = .plain
      · exact .inr fun hempty => hcontent ⟨hplain, hempty⟩
      · exact .inl hplain
  | sequenceStart properties | mappingStart properties =>
    obtain ⟨hsome, hroot⟩ := grown_of_collection hunknown rfl hcloses
    rw [hsome, if_neg Bool.false_ne_true]
    exact .inl hroot
  | sequenceEnd | mappingEnd => exact hbegins.elim

end Document

end CollectorTemplate.Yaml
