/-
Where a document that is read fails.

Nodes stand where their events do, and what is missing of a document is missing for a cause that has
a place as well.  Reading complains about the node it has come to, and so about a place in the text
or just behind it.

* `Node.Sited` : what holds of the places of a node and of all below it;
* `Document.sited_ofEvents` : the nodes of a document stand where its events do;
* `ReadError.Lies` : a failure that is placed in the text or just behind it, if it is placed at all;
* `Document.lies_of_data` : reading a document as data fails with no other.
-/
import CollectorTemplate.Proofs.Yaml.Content
import CollectorTemplate.Proofs.Yaml.Locating

namespace CollectorTemplate.Yaml

/-! ### Nodes -/

/-- The places of a node and of all below it satisfy `P`, and the causes of missing parts `B`. -/
inductive Node.Sited (P : Mark → Prop) (B : Breakage → Prop) : Node → Prop
  | scalar {place : Mark} {tag : Option TagText} {style : Style} {text : List Char}
      (hplace : P place) : Sited P B (.scalar place tag style text)
  | sequence {place : Mark} {tag : Option TagText} {items : List Node} (hplace : P place)
      (hitems : ∀ item ∈ items, Sited P B item) : Sited P B (.sequence place tag items)
  | mapping {place : Mark} {tag : Option TagText} {entries : List (Node × Node)} (hplace : P place)
      (hkeys : ∀ entry ∈ entries, Sited P B entry.1)
      (hvalues : ∀ entry ∈ entries, Sited P B entry.2) : Sited P B (.mapping place tag entries)
  | reference {place : Mark} {number : Nat} (hplace : P place) : Sited P B (.reference place number)
  | broken {cause : Breakage} (hcause : B cause) : Sited P B (.broken cause)

theorem Node.Sited.place {P : Mark → Prop} {B : Breakage → Prop} {node : Node}
    (h : node.Sited P B) (hstart : P {}) : P node.place := by
  cases h with
  | scalar hplace | sequence hplace | mapping hplace | reference hplace => exact hplace
  | broken => exact hstart

namespace Document

variable {P : Mark → Prop} {B : Breakage → Prop}

/-- The places in a collection that is still open satisfy `P`, and the causes of missing parts in it
`B`. -/
def Open.Sited (P : Mark → Prop) (B : Breakage → Prop) : Open → Prop
  | .sequence place _ _ items => P place ∧ ∀ item ∈ items, item.Sited P B
  | .mapping place _ _ entries key =>
    P place ∧ (∀ entry ∈ entries, entry.1.Sited P B) ∧ (∀ entry ∈ entries, entry.2.Sited P B) ∧
      ∀ node ∈ key, node.Sited P B

/-- All places in a tree in growth satisfy `P`, and all causes of missing parts `B`. -/
structure Growth.Sited (P : Mark → Prop) (B : Breakage → Prop) (g : Growth) : Prop where
  opened : ∀ o ∈ g.opened, o.Sited P B
  root : ∀ node ∈ g.root, node.Sited P B
  anchors : ∀ anchor ∈ g.anchors, anchor.2.Sited P B

namespace Growth.Sited

variable {g : Growth} {node : Node}

theorem empty : Sited P B {} :=
  ⟨List.forall_mem_nil _, fun _ h => (nomatch h), List.forall_mem_nil _⟩

theorem add (h : g.Sited P B) (hnode : node.Sited P B) : (g.add node).Sited P B := by
  obtain ⟨hopened, hroot, hanchors⟩ := h
  unfold Growth.add
  split
  · exact ⟨hopened, fun _ hn => Option.mem_some_iff.mp hn ▸ hnode, hanchors⟩
  all_goals
    rename_i heq
    rw [heq, List.forall_mem_cons] at hopened
    refine ⟨List.forall_mem_cons.mpr ⟨?_, hopened.2⟩, hroot, hanchors⟩
  · obtain ⟨hplace, hitems⟩ := hopened.1
    exact ⟨hplace, List.forall_mem_cons.mpr ⟨hnode, hitems⟩⟩
  · obtain ⟨hplace, hkeys, hvalues, -⟩ := hopened.1
    exact ⟨hplace, hkeys, hvalues, fun _ hn => Option.mem_some_iff.mp hn ▸ hnode⟩
  · obtain ⟨hplace, hkeys, hvalues, hkey⟩ := hopened.1
    exact ⟨hplace, List.forall_mem_cons.mpr ⟨hkey _ rfl, hkeys⟩,
      List.forall_mem_cons.mpr ⟨hnode, hvalues⟩, fun _ h => nomatch h⟩

theorem anchor (h : g.Sited P B) (hnode : node.Sited P B) (number : Option Nat) :
    (g.anchor number node).Sited P B := by
  unfold Growth.anchor
  split
  · exact h
  · exact ⟨h.opened, h.root, List.forall_mem_cons.mpr ⟨hnode, h.anchors⟩⟩

/-- A collection that is closed is a node around which the outer ones are open. -/
theorem closed (h : g.Sited P B) {outer : List Open} (houter : ∀ o ∈ outer, o.Sited P B)
    (hnode : node.Sited P B) (number : Option Nat) :
    (({ g with opened := outer }.anchor number node).add node).Sited P B := by
  have hrest : { g with opened := outer }.Sited P B := ⟨houter, h.root, h.anchors⟩
  exact (hrest.anchor hnode number).add hnode

theorem close (h : g.Sited P B) : g.close.Sited P B := by
  have hopened := h.opened
  unfold Growth.close
  split
  · exact h
  all_goals
    rename_i heq
    rw [heq, List.forall_mem_cons] at hopened
  · obtain ⟨⟨hplace, hitems⟩, houter⟩ := hopened
    refine h.closed houter (.sequence hplace fun item hitem => ?_) _
    exact hitems item (List.mem_reverse.mp hitem)
  · obtain ⟨⟨hplace, hkeys, hvalues, -⟩, houter⟩ := hopened
    refine h.closed houter (.mapping hplace (fun entry hentry => ?_) fun entry hentry => ?_) _
    · exact hkeys entry (List.mem_reverse.mp hentry)
    · exact hvalues entry (List.mem_reverse.mp hentry)

theorem step (h : g.Sited P B) {e : Numbered} (he : P e.place) : (g.step e).Sited P B := by
  unfold Growth.step
  split
  · exact h.add (.reference he)
  · exact (h.anchor (.scalar he) _).add (.scalar he)
  · exact ⟨List.forall_mem_cons.mpr ⟨⟨he, List.forall_mem_nil _⟩, h.opened⟩, h.root, h.anchors⟩
  · refine ⟨List.forall_mem_cons.mpr ⟨⟨he, List.forall_mem_nil _, List.forall_mem_nil _, ?_⟩,
      h.opened⟩, h.root, h.anchors⟩
    exact fun _ h => nomatch h
  · exact h.close
  · exact h.close

theorem grow {events : List Numbered} (h : g.Sited P B) (hevents : ∀ e ∈ events, P e.place) :
    (events.foldl Growth.step g).Sited P B := by
  induction events generalizing g with
  | nil => exact h
  | cons e events ih =>
    obtain ⟨he, hevents⟩ := List.forall_mem_cons.mp hevents
    exact ih (h.step he) hevents

theorem breakOff (h : g.Sited P B) {cause : Breakage} (hcause : B cause) (limit : Nat) :
    (g.breakOff cause limit).Sited P B := by
  have hbroken : (Node.broken cause).Sited P B := .broken hcause
  induction limit generalizing g with
  | zero => exact h
  | succ limit ih =>
    unfold Growth.breakOff
    split
    · exact h
    · exact ih (h.add hbroken).close
    · exact ih ((h.add hbroken).add hbroken).close
    · exact ih (h.add hbroken).close

/-- What is missing at the end is missing for one cause. -/
theorem whole (h : g.Sited P B) {stop : Option Breakage} (hstop : ∀ cause ∈ stop, B cause) :
    (match stop with
      | none => g
      | some cause => g.breakOff cause (g.opened.length + 1)).Sited P B := by
  cases stop with
  | none => exact h
  | some cause => exact h.breakOff (hstop cause rfl) _

end Growth.Sited

/-- All places in a document satisfy `P`, and all causes of missing parts `B`. -/
structure Sited (P : Mark → Prop) (B : Breakage → Prop) (d : Document) : Prop where
  root : ∀ node ∈ d.root, node.Sited P B
  anchors : ∀ anchor ∈ d.anchors, anchor.2.Sited P B
  tail : ∀ cause ∈ d.tail, B cause

/-- Numbering keeps the places, and an alias that stands for nothing is told at its own. -/
theorem places_slot {events : List PlacedEvent} (naming : Naming)
    (h : ∀ e ∈ events, P e.place) :
    (∀ e ∈ (slot events naming).1, P e.place) ∧
      ∀ cause ∈ (slot events naming).2.1, ∃ m, P m ∧ cause = .unknownAnchor m := by
  fun_induction slot events naming with
  | case1 naming => exact ⟨List.forall_mem_nil _, by simp⟩
  | case2 name place rest naming hlookup =>
    refine ⟨List.forall_mem_nil _, fun cause hcause => ?_⟩
    exact ⟨place, (List.forall_mem_cons.mp h).1, (Option.mem_some_iff.mp hcause).symm⟩
  | case3 _ _ _ _ _ _ _ _ _ hslot ih | case4 _ _ _ _ _ _ _ _ _ hslot ih
  | case5 _ _ _ _ _ _ _ _ _ _ hslot ih =>
    obtain ⟨hplace, hrest⟩ := List.forall_mem_cons.mp h
    rw [hslot] at ih
    obtain ⟨hevents, hstop⟩ := ih hrest
    exact ⟨List.forall_mem_cons.mpr ⟨hplace, hevents⟩, hstop⟩

theorem places_number {events : List PlacedEvent} (h : ∀ e ∈ events, P e.place) :
    (∀ e ∈ (number events).1, P e.place) ∧
      ∀ cause ∈ (number events).2, ∃ m, P m ∧ cause = .unknownAnchor m := by
  obtain ⟨hevents, hstop⟩ := places_slot {} h
  refine ⟨fun e he => ?_, hstop⟩
  obtain ⟨e, hmem, rfl⟩ := List.mem_map.mp he
  have hplace : (e.resolve (slot events {}).2.2).place = e.place := by
    unfold Numbered.resolve
    split
    · rfl
    · rfl
  exact hplace ▸ hevents e hmem

/-- What is wrong behind the root is a fault of the events, or an alias that stands for nothing. -/
theorem tail_cases {d : DocumentEvents} (hevents : ∀ e ∈ d.events, P e.place) {cause : Breakage}
    (h : cause ∈ (ofEvents d).tail) :
    (∃ f ∈ d.fault, cause = .fault f) ∨ ∃ m, P m ∧ cause = .unknownAnchor m := by
  rcases Option.or_eq_some_iff.mp h with hunknown | ⟨-, hfault⟩
  · exact .inr ((places_number hevents).2 cause hunknown)
  · obtain ⟨f, hf, rfl⟩ := Option.map_eq_some_iff.mp hfault
    exact .inl ⟨f, hf, rfl⟩

/-- The nodes of a document stand where its events do. -/
theorem sited_ofEvents {d : DocumentEvents} (hevents : ∀ e ∈ d.events, P e.place)
    (htail : ∀ cause ∈ (ofEvents d).tail, B cause) : (ofEvents d).Sited P B := by
  have hgrown := Growth.Sited.empty.grow (B := B) (places_number hevents).1
  have htree := hgrown.whole htail
  constructor
  case anchors => exact htree.anchors
  case tail => exact htail
  case root =>
    intro node hnode
    unfold ofEvents at hnode
    dsimp only at hnode
    split at hnode
    · obtain ⟨cause, hcause, rfl⟩ := Option.map_eq_some_iff.mp hnode
      exact .broken (htail cause hcause)
    · exact htree.root node hnode

end Document

/-! ### Failures -/

variable {text : List Char}

/-- What is missing is missing for a cause in the text or just behind it. -/
def Breakage.Lies (text : List Char) : Breakage → Prop
  | .fault f => f.Lies text
  | .unknownAnchor m => m.Near text

/-- A failure is placed in the text or just behind it, if it is placed at all. -/
def ReadError.Lies (text : List Char) : ReadError → Prop
  | .broken cause => cause.Lies text
  | .recursionLimit m | .complaint _ m _ => m.Near text
  | .repetitionLimit | .moreDocuments => True

theorem ReadError.Lies.place {e : ReadError} (h : e.Lies text) {m : Mark} (hm : e.place = some m) :
    m.Near text := by
  cases e with
  | broken cause =>
    cases cause with
    | fault f => exact Option.some.inj hm ▸ Fault.Lies.place h
    | unknownAnchor place => exact Option.some.inj hm ▸ h
  | recursionLimit place => exact Option.some.inj hm ▸ h
  | complaint cause place path => exact Option.some.inj hm ▸ h
  | repetitionLimit | moreDocuments => nomatch hm

/-! ### Reading -/

/-- However many aliases were followed before, a step of reading gives something good or fails in
the text or just behind it. -/
def ReadsIn {α : Type} (text : List Char) (good : α → Prop) (step : Reads α) : Prop :=
  ∀ jumps, Ends (ReadError.Lies text) (fun r => good r.1) (step.run jumps)

namespace ReadsIn

variable {α β : Type} {good : α → Prop} {next : β → Prop} {step : Reads α}

theorem pure {a : α} (h : good a) : ReadsIn text good (Pure.pure a) := fun _ => h

theorem throw {e : ReadError} (h : e.Lies text) : ReadsIn text good (MonadExcept.throw e) :=
  fun _ => h

theorem bind {f : α → Reads β} (h : ReadsIn text good step)
    (hf : ∀ a, good a → ReadsIn text next (f a)) : ReadsIn text next (step >>= f) :=
  fun jumps => (h jumps).bind fun r hr => hf r.1 hr r.2

end ReadsIn

/-- All places of a node and of what is below it are in the text or just behind it. -/
abbrev Node.Lies (text : List Char) (node : Node) : Prop :=
  node.Sited (Mark.Near text) (Breakage.Lies text)

namespace Document

/-- All places in the document are in the text or just behind it. -/
abbrev Lies (text : List Char) (d : Document) : Prop :=
  d.Sited (Mark.Near text) (Breakage.Lies text)

variable {d : Document}

theorem lies_ofString (raw : String) : (ofString raw).Lies raw.toList := by
  obtain ⟨hevents, hfault⟩ := DocumentEvents.placed_ofString raw
  refine sited_ofEvents hevents fun cause hcause => ?_
  rcases tail_cases hevents hcause with ⟨f, hf, rfl⟩ | ⟨m, hm, rfl⟩
  · exact hfault f hf
  · exact hm

/-- An alias leads to a node of the document. -/
theorem readsIn_follow (hd : d.Lies text) (number : Nat) :
    ReadsIn text (Node.Lies text) (d.follow number) := by
  intro jumps
  unfold follow
  dsimp only [bind, StateT.bind, StateT.run, get, getThe, MonadStateOf.get, StateT.get, pure,
    StateT.pure, Except.bind, Except.pure, set, MonadStateOf.set, StateT.set]
  by_cases hlimit : d.size * 100 < jumps + 1
  · rw [if_pos hlimit]
    exact trivial
  · rw [if_neg hlimit]
    change Node.Lies text _
    cases hlookup : d.anchors.lookup number with
    | none => exact .broken (.inl (Mark.inside_start text))
    | some node =>
      obtain ⟨front, back, heq, -⟩ := List.lookup_eq_some_iff.mp hlookup
      exact hd.anchors (number, node) (heq ▸ List.mem_append_right _ List.mem_cons_self)

theorem readsIn_target (hd : d.Lies text) {node : Node} (h : node.Lies text) (path : Path) :
    ReadsIn text (fun r => r.1.Lies text) (d.target node path) := by
  unfold target
  split
  · exact (readsIn_follow hd _).bind fun _ htarget => .pure htarget
  · exact .pure h

/-- Whatever data are read, reading fails in the text or just behind it. -/
def ReadsAt (text : List Char) (read : Path → Node → Reads Untyped) : Prop :=
  ∀ path node, node.Lies text → ReadsIn text (fun _ => True) (read path node)

theorem readsIn_items {read : Path → Node → Reads Untyped} (hread : ReadsAt text read)
    {path : Path} {index : Nat} {nodes : List Node} (h : ∀ node ∈ nodes, node.Lies text) :
    ReadsIn text (fun _ => True) (Document.items read path index nodes) := by
  induction nodes generalizing index with
  | nil => exact .pure trivial
  | cons node nodes ih =>
    obtain ⟨hnode, hnodes⟩ := List.forall_mem_cons.mp h
    exact (hread _ _ hnode).bind fun _ _ => (ih hnodes).bind fun _ _ => .pure trivial

theorem readsIn_entries {s : Strictness} {read : Path → Node → Reads Untyped}
    (hread : ReadsAt text read) {place : Mark} (hplace : place.Near text) {path : Path}
    {seen : List Untyped} {pairs : List (Node × Node)} (hkeys : ∀ pair ∈ pairs, pair.1.Lies text)
    (hvalues : ∀ pair ∈ pairs, pair.2.Lies text) :
    ReadsIn text (fun _ => True) (Document.entries s read place path seen pairs) := by
  induction pairs generalizing seen with
  | nil => exact .pure trivial
  | cons pair pairs ih =>
    obtain ⟨hkey, hkeys⟩ := List.forall_mem_cons.mp hkeys
    obtain ⟨hvalue, hvalues⟩ := List.forall_mem_cons.mp hvalues
    have hrest (k : Untyped) : ReadsIn text (fun _ => True) (do
        let v ← read (valuePath path pair.1) pair.2
        return (k, v) :: (← Document.entries s read place path (seen ++ [k]) pairs)) :=
      (hread _ _ hvalue).bind fun _ _ => (ih hkeys hvalues).bind fun _ _ => .pure trivial
    rw [Document.entries]
    refine (hread _ _ hkey).bind fun k _ => ?_
    dsimp only
    split
    · split
      · exact .throw hplace
      · exact hrest k
    · exact hrest k

theorem readsIn_tagged {s : Strictness} {name : Option String} {place : Mark}
    (hplace : place.Near text) {path : Path} {content : Reads Untyped}
    (hcontent : ReadsIn text (fun _ => True) content) :
    ReadsIn text (fun _ => True) (s.tagged name place path content) := by
  unfold Strictness.tagged
  split
  · exact hcontent
  · split
    · exact hcontent.bind fun _ _ => .pure trivial
    · exact .throw hplace

/-- A node is read as its content is, and if it has a tag of a program's own, that may be refused
at the place of the node. -/
theorem readsAt_of_inner (hd : d.Lies text) (s : Strictness) {depth : Nat}
    (hinner : ∀ inner, depth = inner + 1 → ReadsAt text (d.untyped s inner)) :
    ReadsAt text (d.untyped s depth) := by
  intro path node hnode
  rw [untyped_eq]
  refine (readsIn_target hd hnode path).bind fun r hr => ?_
  obtain ⟨node', path'⟩ := r
  cases hr with
  | broken hcause => exact .throw hcause
  | reference hplace => exact .throw hplace
  | scalar hplace =>
    refine readsIn_tagged hplace ?_
    unfold untagged
    dsimp only
    split
    · exact .pure trivial
    · exact .throw hplace
  | sequence hplace hitems =>
    refine readsIn_tagged hplace ?_
    cases depth with
    | zero => exact .throw hplace
    | succ depth => exact (readsIn_items (hinner _ rfl) hitems).bind fun _ _ => .pure trivial
  | mapping hplace hkeys hvalues =>
    refine readsIn_tagged hplace ?_
    cases depth with
    | zero => exact .throw hplace
    | succ depth =>
      exact (readsIn_entries (hinner _ rfl) hplace hkeys hvalues).bind fun _ _ => .pure trivial

theorem readsAt_untyped (hd : d.Lies text) (s : Strictness) (depth : Nat) :
    ReadsAt text (d.untyped s depth) := by
  induction depth with
  | zero => exact readsAt_of_inner hd s fun _ h => nomatch h
  | succ depth ih => exact readsAt_of_inner hd s fun _ h => Nat.succ.inj h ▸ ih

theorem ends_tail (hd : d.Lies text) (value : Untyped) :
    Ends (ReadError.Lies text) (fun _ => True) (match d.tail with
      | some cause => throw (.broken cause)
      | none => if d.more then throw .moreDocuments else pure value) := by
  split
  · rename_i cause hcause
    exact hd.tail cause hcause
  · split
    · exact trivial
    · exact trivial

/-- A document whose places are in the text or just behind it is refused there. -/
theorem lies_of_data (hd : d.Lies text) (s : Strictness) {e : ReadError}
    (h : d.data s = .error e) : e.Lies text := by
  have hdata : Ends (ReadError.Lies text) (fun _ => True) (d.data s) := by
    unfold data decode
    cases hroot : d.root with
    | none => exact ends_tail hd .null
    | some root =>
      have hnode := readsAt_untyped hd s depthLimit .root root (hd.root root hroot) 0
      have hvalue : Ends (ReadError.Lies text) (fun _ => True)
          ((d.untyped s depthLimit .root root).run' 0) := hnode.bind fun _ _ => trivial
      exact hvalue.bind fun value _ => ends_tail hd value
  rw [h] at hdata
  exact hdata

end Document

end CollectorTemplate.Yaml
