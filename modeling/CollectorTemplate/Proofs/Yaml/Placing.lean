/-
Where tokens stand.

Tokens are told where they stand in the text, and most of them in the order in which they are read.
Two kinds are put between others afterwards: a key, and the opening of the mapping it belongs to.
They get the place where the key may have begun, which was remembered together with the number of
tokens there were, and so the order of places is kept.

* `Lexing.Placed` : what holds of the tokens, and of the places where keys may have begun;
* `Lexing.ends_step` : a step keeps it, and a fault lies in the text or just behind it;
* `TokenStream.placed_ofString` : the tokens of a text stand in the order of their places.

The end of the text is told on a line of its own, which the text may not have.  That is the one
place a token can have behind the text.
-/
import CollectorTemplate.Proofs.Yaml.Lexing
import CollectorTemplate.Proofs.Yaml.Scanned

namespace CollectorTemplate.Yaml

open Cursor

variable {text : List Char}

namespace Mark

/-- Where a text ends in the middle of a line, the next line would be just behind it. -/
theorem near_end {m n : Mark} (h : At text {} ⟨[], m⟩) (hcolumn : m.column ≠ 0)
    (hline : n.line = m.line + 1) (hzero : n.column = 0) : n.Behind text := by
  obtain ⟨earlier, front, hearlier, hfront, hrows⟩ := h.passed
  have hlast : rows text = earlier ++ [front] := by
    rw [hrows]
    show earlier ++ [front ++ []] = _
    rw [List.append_nil]
  refine ⟨by simp [hlast, hline, show m.line = _ from hearlier], hzero, ?_⟩
  rw [hlast, List.getLast?_concat]
  rintro h
  obtain rfl := Option.some.inj h
  exact hcolumn hfront

theorem start_upto (m : Mark) : Upto {} m := by
  rcases Nat.eq_zero_or_pos m.line with h | h
  · exact .inr ⟨h.symm, Nat.zero_le _⟩
  · exact .inl h

end Mark

namespace PendingKey

/-- The second key is no later than the first, in number and place. -/
def Under (key outer : PendingKey) : Prop :=
  outer.number ≤ key.number ∧ outer.place.Upto key.place

theorem Under.refl (key : PendingKey) : key.Under key := ⟨Nat.le_refl _, .refl _⟩

/-- The key would begin with the token of its number: among the tokens, latest first, those from
this number on begin no earlier, and as many as the number says begin no later. -/
def Splits (key : PendingKey) (lexemes : List Lexeme) : Prop :=
  ∃ later earlier, lexemes = later ++ earlier ∧ earlier.length = key.number ∧
    (∀ x ∈ later, key.place.Upto x.start) ∧ ∀ x ∈ earlier, x.start.Upto key.place

theorem Splits.push {key : PendingKey} {lexemes : List Lexeme} {x : Lexeme}
    (h : key.Splits lexemes) (hx : key.place.Upto x.start) : key.Splits (x :: lexemes) := by
  obtain ⟨later, earlier, rfl, hnumber, hlater, hearlier⟩ := h
  exact ⟨x :: later, earlier, rfl, hnumber, List.forall_mem_cons.mpr ⟨hx, hlater⟩, hearlier⟩

/-- A token put in front of a key's own is among the later ones of every key around it. -/
theorem Splits.insert {key outer : PendingKey} {later earlier : List Lexeme} {x : Lexeme}
    (h : outer.Splits (later ++ earlier)) (hnumber : earlier.length = key.number)
    (hunder : key.Under outer) (hx : x.start = key.place) :
    outer.Splits (later ++ x :: earlier) := by
  obtain ⟨later', earlier', hsplit, hnumber', hlater, hearlier⟩ := h
  obtain ⟨hle, hplace⟩ := hunder
  rcases List.append_eq_append_iff.mp hsplit with ⟨mid, rfl, rfl⟩ | ⟨mid, rfl, rfl⟩
  · refine ⟨later ++ x :: mid, earlier', by simp, hnumber', fun y hy => ?_, hearlier⟩
    rcases (by simpa [or_left_comm] using hy : y = x ∨ y ∈ later ∨ y ∈ mid) with rfl | hy | hy
    · exact hx ▸ hplace
    · exact hlater y (List.mem_append_left _ hy)
    · exact hlater y (List.mem_append_right _ hy)
  · -- The outer key has no higher number, so nothing lies between the two.
    obtain rfl : mid = [] := by
      rw [List.length_append] at hnumber'
      exact List.eq_nil_of_length_eq_zero (by omega)
    refine ⟨later' ++ [x], earlier, by simp, by simpa using hnumber', fun y hy => ?_, hearlier⟩
    rcases (by simpa using hy : y ∈ later' ∨ y = x) with hy | rfl
    · exact hlater y hy
    · exact hx ▸ hplace

end PendingKey

namespace Lexing

variable {s t : Lexing} {x : Lexeme}

/-- The places where keys may have begun, innermost first. -/
def keys (s : Lexing) : List PendingKey := (s.pending :: s.outer).filterMap id

/-- Tokens stand in the text or just behind it, in the order of their places, and so do the places
where keys may have begun. -/
structure Placed (text : List Char) (s : Lexing) : Prop where
  near : s.mark.Near text
  count : s.count = s.lexemes.length
  places : ∀ x ∈ s.lexemes, x.start.Near text ∧ x.stop.Near text
  sorted : s.lexemes.Pairwise fun later earlier => earlier.start.Upto later.start
  told : ∀ x ∈ s.lexemes, x.start.Upto s.mark
  keys : ∀ key ∈ s.keys, key.place.Near text ∧ key.place.Upto s.mark ∧ key.Splits s.lexemes
  nested : s.keys.Pairwise PendingKey.Under
  demanded : ∀ key ∈ s.demanded, key.place.Upto s.mark

namespace Placed

/-- No token is told, and no key may begin anew. -/
theorem keep (h : s.Placed text) (hlexemes : t.lexemes = s.lexemes) (hcount : t.count = s.count)
    (hmark : s.mark.Upto t.mark) (hnear : t.mark.Near text) (hkeys : t.keys.Sublist s.keys)
    (hdemanded : ∀ key ∈ t.demanded, key.place.Upto s.mark) : t.Placed text where
  near := hnear
  count := by rw [hcount, hlexemes, h.count]
  places := hlexemes ▸ h.places
  sorted := hlexemes ▸ h.sorted
  told := hlexemes ▸ fun x hx => (h.told x hx).trans hmark
  keys := by
    intro key hkey
    obtain ⟨hplace, hupto, hsplits⟩ := h.keys key (hkeys.subset hkey)
    exact ⟨hplace, hupto.trans hmark, hlexemes ▸ hsplits⟩
  nested := h.nested.sublist hkeys
  demanded := fun key hkey => (hdemanded key hkey).trans hmark

/-- A token is told that begins at the place reached. -/
theorem push (h : s.Placed text) (hlexemes : t.lexemes = x :: s.lexemes)
    (hcount : t.count = s.count + 1) (hstart : x.start = s.mark) (hstop : x.stop.Near text)
    (hmark : s.mark.Upto t.mark) (hnear : t.mark.Near text) (hkeys : t.keys.Sublist s.keys)
    (hdemanded : ∀ key ∈ t.demanded, key.place.Upto s.mark) : t.Placed text where
  near := hnear
  count := by rw [hcount, hlexemes, h.count, List.length_cons]
  places := by
    rw [hlexemes]
    exact List.forall_mem_cons.mpr ⟨⟨hstart ▸ h.near, hstop⟩, h.places⟩
  sorted := by
    rw [hlexemes]
    exact List.pairwise_cons.mpr ⟨fun y hy => hstart ▸ h.told y hy, h.sorted⟩
  told := by
    rw [hlexemes]
    exact List.forall_mem_cons.mpr ⟨hstart ▸ hmark, fun y hy => (h.told y hy).trans hmark⟩
  keys := by
    intro key hkey
    obtain ⟨hplace, hupto, hsplits⟩ := h.keys key (hkeys.subset hkey)
    exact ⟨hplace, hupto.trans hmark, hlexemes ▸ hsplits.push (hstart ▸ hupto)⟩
  nested := h.nested.sublist hkeys
  demanded := fun key hkey => (hdemanded key hkey).trans hmark

theorem pending (h : s.Placed text) {key : PendingKey} (hkey : s.pending = some key) :
    key.place.Near text ∧ key.place.Upto s.mark ∧ key.Splits s.lexemes :=
  h.keys key (by simp [Lexing.keys, hkey])

/-- A token is put where the innermost key may have begun. -/
theorem insertAt (h : s.Placed text) {key : PendingKey} (hkey : s.pending = some key)
    (hstart : x.start = key.place) (hstop : x.stop = key.place) :
    (s.insertAt key.number x).Placed text := by
  obtain ⟨hplace, hupto, later, earlier, hsplit, hnumber, hlater, hearlier⟩ := h.pending hkey
  have hlexemes : (s.insertAt key.number x).lexemes = later ++ x :: earlier := by
    have hlength : s.count - key.number = later.length := by
      rw [h.count, hsplit, List.length_append, hnumber, Nat.add_sub_cancel]
    show s.lexemes.take (s.count - key.number) ++ x :: s.lexemes.drop (s.count - key.number) = _
    rw [hlength, hsplit, List.take_left, List.drop_left]
  have hmem : ∀ y, y ∈ (s.insertAt key.number x).lexemes ↔ y = x ∨ y ∈ s.lexemes := by
    intro y
    rw [hlexemes, hsplit]
    simp [or_left_comm]
  have hunder : ∀ outer ∈ s.keys, key.Under outer := by
    have hkeys : s.keys = key :: s.outer.filterMap id := by simp [Lexing.keys, hkey]
    have hnested := h.nested
    rw [hkeys] at hnested ⊢
    exact List.forall_mem_cons.mpr ⟨.refl key, (List.pairwise_cons.mp hnested).1⟩
  constructor
  case near => exact h.near
  case count =>
    rw [hlexemes]
    show s.count + 1 = _
    rw [h.count, hsplit]
    simp [Nat.add_assoc]
  case places =>
    intro y hy
    rcases (hmem y).mp hy with rfl | hy
    · exact ⟨hstart ▸ hplace, hstop ▸ hplace⟩
    · exact h.places y hy
  case sorted =>
    have hsorted := h.sorted
    rw [hsplit, List.pairwise_append] at hsorted
    obtain ⟨hl, he, hle⟩ := hsorted
    rw [hlexemes, List.pairwise_append, List.pairwise_cons]
    refine ⟨hl, ⟨hstart ▸ hearlier, he⟩, fun y hy => List.forall_mem_cons.mpr ⟨?_, hle y hy⟩⟩
    exact hstart ▸ hlater y hy
  case told =>
    intro y hy
    rcases (hmem y).mp hy with rfl | hy
    · exact hstart ▸ hupto
    · exact h.told y hy
  case keys =>
    intro outer houter
    obtain ⟨hp, hu, hsplits⟩ := h.keys outer houter
    rw [hsplit] at hsplits
    exact ⟨hp, hu, hlexemes ▸ hsplits.insert hnumber (hunder outer houter) hstart⟩
  case nested => exact h.nested
  case demanded => exact h.demanded

end Placed

/-! ### Bookkeeping -/

theorem placed_closeBlocks (h : s.Placed text) (column : Int) :
    (s.closeBlocks column).Placed text := by
  have hclose : ∀ (s : Lexing) indent indents, s.Placed text →
      { s.push ⟨.blockEnd, s.mark, s.mark⟩ with
        indent := indent, indents := indents }.Placed text := fun s _ _ h =>
    h.push rfl rfl rfl h.near (.refl _) h.near (.refl _) h.demanded
  unfold closeBlocks
  split
  · exact h
  · induction s.indents generalizing s with
    | nil =>
      unfold closeBlocks.go
      split
      · exact hclose s _ _ h
      · exact h
    | cons indent outer ih =>
      unfold closeBlocks.go
      split
      · exact ih (hclose s _ _ h) ‹_›
      · exact h

theorem placed_openBlock (h : s.Placed text) (token : Token) :
    (s.openBlock s.mark none token).Placed text := by
  unfold openBlock
  split
  · exact h.push (x := ⟨token, s.mark, s.mark⟩) rfl rfl rfl h.near (.refl _) h.near (.refl _)
      h.demanded
  · exact h

theorem placed_openBlock_of_pending (h : s.Placed text) {key : PendingKey}
    (hkey : s.pending = some key) (token : Token) :
    (s.openBlock key.place (some key.number) token).Placed text := by
  unfold openBlock
  split
  · have hinsert := h.insertAt (x := ⟨token, key.place, key.place⟩) hkey rfl rfl
    exact hinsert.keep rfl rfl (.refl _) hinsert.near (.refl _) hinsert.demanded
  · exact h

theorem lies_missingColon (h : s.Placed text) {key : PendingKey} (hkey : key.place.Upto s.mark) :
    (s.missingColon key).Lies text :=
  ⟨h.near, fun _ hw => Option.mem_some_iff.mp hw ▸ hkey⟩

/-- Without the place on the innermost level, the levels around it are left. -/
theorem keys_dropped (s : Lexing) : (keys { s with pending := none }).Sublist s.keys := by
  show (s.outer.filterMap id).Sublist ((s.pending :: s.outer).filterMap id)
  exact (List.sublist_cons_self s.pending s.outer).filterMap id

/-- What bookkeeping leaves: tokens in their places, and the cursor where it was. -/
structure Kept (text : List Char) (s t : Lexing) : Prop where
  placed : t.Placed text
  count : t.count = s.count
  cursor : t.cursor = s.cursor
  outer : t.outer = s.outer
  ended : t.ended = s.ended

theorem ends_refresh (h : s.Placed text) (key : Option PendingKey)
    (hkey : ∀ k ∈ key, k.place.Upto s.mark) :
    Ends (Fault.Lies text) (fun fresh => fresh = key ∨ fresh = none) (s.refresh key) := by
  cases key with
  | none => exact .inl rfl
  | some key =>
    refine .ite (fun _ => .ite (fun _ => ?_) fun _ => .inr rfl) fun _ => .inl rfl
    exact lies_missingColon h (hkey key rfl)

theorem ends_dropPending (h : s.Placed text) :
    Ends (Fault.Lies text) (fun t => s.Kept text t) s.dropPending := by
  unfold dropPending
  split
  · rename_i key hkey
    refine .ite (fun _ => lies_missingColon h (h.pending hkey).2.1) fun _ => ?_
    exact ⟨h.keep rfl rfl (.refl _) h.near (keys_dropped s) h.demanded, rfl, rfl, rfl, rfl⟩
  · exact ⟨h, rfl, rfl, rfl, rfl⟩

theorem ends_dropStale (h : s.Placed text) :
    Ends (Fault.Lies text) (fun t => s.Kept text t) s.dropStale := by
  refine (ends_refresh h s.demanded h.demanded).bind fun _ _ => ?_
  refine (ends_refresh h s.pending fun key hkey => (h.pending hkey).2.1).bind fun fresh hfresh => ?_
  rcases hfresh with rfl | rfl
  · exact ⟨h, rfl, rfl, rfl, rfl⟩
  · exact ⟨h.keep rfl rfl (.refl _) h.near (keys_dropped s) h.demanded, rfl, rfl, rfl, rfl⟩

/-- A key may begin at the place reached; the token of its number is still to come. -/
theorem placed_savePending (h : s.Placed text) {key : PendingKey} (hnumber : key.number = s.count)
    (hplace : key.place = s.mark) : { s with pending := some key }.Placed text := by
  have hkeys : keys { s with pending := some key } = key :: s.outer.filterMap id := by simp [keys]
  have houter : (s.outer.filterMap id).Sublist s.keys := keys_dropped s
  constructor
  case near => exact h.near
  case count => exact h.count
  case places => exact h.places
  case sorted => exact h.sorted
  case told => exact h.told
  case demanded => exact h.demanded
  case keys =>
    rw [hkeys]
    refine List.forall_mem_cons.mpr ⟨?_, fun outer hmem => h.keys outer (houter.subset hmem)⟩
    rw [hplace]
    refine ⟨h.near, .refl _, [], s.lexemes, rfl, by rw [hnumber, h.count], by simp, ?_⟩
    rw [hplace]
    exact h.told
  case nested =>
    rw [hkeys]
    refine List.pairwise_cons.mpr ⟨fun outer hmem => ?_, h.nested.sublist houter⟩
    obtain ⟨-, hupto, later, earlier, hsplit, hlength, -, -⟩ :=
      h.keys outer (houter.subset hmem)
    refine ⟨?_, hplace ▸ hupto⟩
    rw [hnumber, h.count, hsplit, List.length_append]
    omega

theorem ends_savePending (h : s.Placed text) :
    Ends (Fault.Lies text) (fun t => s.Kept text t) s.savePending := by
  refine .ite (fun _ => ?_) fun _ => ⟨h, rfl, rfl, rfl, rfl⟩
  refine (ends_dropPending h).bind fun t ht => ?_
  obtain ⟨hplaced, hcount, hcursor, houter, hended⟩ := ht
  have hmark : s.mark = t.mark := congrArg Cursor.mark hcursor.symm
  exact ⟨placed_savePending hplaced hcount.symm hmark, hcount, hcursor, houter, hended⟩

/-! ### Tokens -/

/-- Tokens are in their places, and the cursor is at a place of the text. -/
structure Stands (text : List Char) (s : Lexing) : Prop where
  placed : s.Placed text
  cursor : s.cursor.At text {}

/-- A token is told, from the place reached to one that is further on. -/
theorem stands_push (h : s.Placed text) (hlexemes : t.lexemes = x :: s.lexemes)
    (hcount : t.count = s.count + 1) (hstart : x.start = s.mark) (hstop : x.stop.Inside text)
    (hcursor : t.cursor.At text s.mark) (hkeys : t.keys.Sublist s.keys)
    (hdemanded : ∀ key ∈ t.demanded, key.place.Upto s.mark) : t.Stands text :=
  ⟨h.push hlexemes hcount hstart (.inl hstop) hcursor.upto (.inl hcursor.inside) hkeys hdemanded,
    hcursor.of_upto (Mark.start_upto _)⟩

section

variable {c : Char} {after : List Char}

/-- The place behind an indicator. -/
theorem at_forward {d : Cursor} (h : d.At text {}) (hd : d.rest = c :: after)
    (hc : isBreak c = false) : (d.forward 1).At text d.mark :=
  h.here.forward (by simp [hd]) (by simpa [hd] using hc)

theorem head_of_rest {d : Cursor} (hd : d.rest = c :: after) (hc : isBreak c = false) :
    ∀ x ∈ d.rest.head?, isBreak x = false := by
  simpa [hd] using hc

theorem ends_directive (hs : s.Stands text) (hc : s.cursor.rest = c :: after)
    (hbreak : isBreak c = false) : Ends (Fault.Lies text) (Stands text) s.directive := by
  refine (ends_dropPending (placed_closeBlocks hs.placed (-1))).bind fun u hu => ?_
  have hcursor : u.cursor = s.cursor := hu.cursor.trans (prepares_closeBlocks s (-1)).cursor
  have hat : u.cursor.At text {} := hcursor ▸ hs.cursor
  refine (Directive.ends_scan hat (head_of_rest (hcursor ▸ hc) hbreak)).bind ?_
  rintro ⟨lexeme, next⟩ ⟨hstart, hstop, hnext⟩
  exact stands_push hu.placed rfl rfl hstart hstop hnext (.refl _) hu.placed.demanded

theorem ends_documentMark (hs : s.Stands text) (hmark : s.cursor.atDocumentMark = true)
    (token : Token) : Ends (Fault.Lies text) (Stands text) (s.documentMark token) := by
  refine (ends_dropPending (placed_closeBlocks hs.placed (-1))).bind fun u hu => ?_
  have hcursor : u.cursor = s.cursor := hu.cursor.trans (prepares_closeBlocks s (-1)).cursor
  have hforward : (u.cursor.forward 3).At text u.mark := by
    have hat : u.cursor.At text {} := hcursor ▸ hs.cursor
    have hdashes : isDocumentMark u.cursor.rest = true := by
      rw [hcursor]
      exact (Bool.and_eq_true_iff.mp hmark).2
    unfold isDocumentMark at hdashes
    split at hdashes
    · rename_i rest hrest
      refine hat.here.forward (by simp [hrest]) ?_
      rw [hrest]
      simp [isBreak]
    · rename_i rest hrest
      refine hat.here.forward (by simp [hrest]) ?_
      rw [hrest]
      simp [isBreak]
    · exact absurd hdashes Bool.false_ne_true
  exact stands_push (x := ⟨token, _, _⟩) hu.placed rfl rfl rfl hforward.inside hforward (.refl _)
    hu.placed.demanded

theorem ends_openFlow (hs : s.Stands text) (hc : s.cursor.rest = c :: after)
    (hbreak : isBreak c = false) (token : Token) :
    Ends (Fault.Lies text) (Stands text) (s.openFlow token) := by
  refine (ends_savePending hs.placed).bind fun u hu => ?_
  have hforward : (u.cursor.forward 1).At text u.mark :=
    at_forward (hu.cursor ▸ hs.cursor) (hu.cursor ▸ hc) hbreak
  refine stands_push (x := ⟨token, _, _⟩) hu.placed rfl rfl rfl hforward.inside hforward
    (.refl _) ?_
  intro key hkey
  have hdemanded : key ∈ if u.inFlow then u.demanded else u.pending.filter (·.required) := hkey
  split at hdemanded
  · exact hu.placed.demanded key hdemanded
  · exact (hu.placed.pending (Option.mem_filter_iff.mp hdemanded).1).2.1

theorem ends_closeFlow (hs : s.Stands text) (hc : s.cursor.rest = c :: after)
    (hbreak : isBreak c = false) (token : Token) :
    Ends (Fault.Lies text) (Stands text) (s.closeFlow token) := by
  refine (ends_dropPending hs.placed).bind fun u hu => ?_
  have hforward : (u.cursor.forward 1).At text u.mark :=
    at_forward (hu.cursor ▸ hs.cursor) (hu.cursor ▸ hc) hbreak
  dsimp only
  split
  · rename_i pending outer houter
    refine stands_push (x := ⟨token, _, _⟩) hu.placed rfl rfl rfl hforward.inside hforward ?_ ?_
    · show ((pending :: outer).filterMap id).Sublist u.keys
      rw [← houter]
      exact keys_dropped u
    · intro key hkey
      have hdemanded : key ∈ if outer.isEmpty then none else u.demanded := hkey
      split at hdemanded
      · nomatch hdemanded
      · exact hu.placed.demanded key hdemanded
  · exact stands_push (x := ⟨token, _, _⟩) hu.placed rfl rfl rfl hforward.inside hforward (.refl _)
      hu.placed.demanded

theorem ends_flowEntry (hs : s.Stands text) (hc : s.cursor.rest = c :: after)
    (hbreak : isBreak c = false) : Ends (Fault.Lies text) (Stands text) s.flowEntry := by
  refine (ends_dropPending hs.placed).bind fun u hu => ?_
  have hforward : (u.cursor.forward 1).At text u.mark :=
    at_forward (hu.cursor ▸ hs.cursor) (hu.cursor ▸ hc) hbreak
  exact stands_push (x := ⟨.flowEntry, _, _⟩) hu.placed rfl rfl rfl hforward.inside hforward
    (.refl _) hu.placed.demanded

/-- A fault with nothing to say about what was being read. -/
theorem lies_bare (hs : s.Stands text) (problem : Problem) : (s.bare problem).Lies text :=
  ⟨hs.placed.near, fun _ hw => nomatch hw⟩

theorem ends_blockEntry (hs : s.Stands text) (hc : s.cursor.rest = c :: after)
    (hbreak : isBreak c = false) : Ends (Fault.Lies text) (Stands text) s.blockEntry := by
  unfold blockEntry
  split
  · exact lies_bare hs _
  · refine (ends_dropPending (placed_openBlock hs.placed .blockSequence)).bind fun u hu => ?_
    have hcursor : u.cursor = s.cursor :=
      hu.cursor.trans (prepares_openBlock _ rfl s s.mark none).cursor
    have hforward : (u.cursor.forward 1).At text u.mark :=
      at_forward (hcursor ▸ hs.cursor) (hcursor ▸ hc) hbreak
    exact stands_push (x := ⟨.blockEntry, _, _⟩) hu.placed rfl rfl rfl hforward.inside hforward
      (.refl _) hu.placed.demanded

theorem ends_explicitKey (hs : s.Stands text) (hc : s.cursor.rest = c :: after)
    (hbreak : isBreak c = false) : Ends (Fault.Lies text) (Stands text) s.explicitKey := by
  unfold explicitKey
  split
  · exact lies_bare hs _
  · refine (ends_dropPending (placed_openBlock hs.placed .blockMapping)).bind fun u hu => ?_
    have hcursor : u.cursor = s.cursor :=
      hu.cursor.trans (prepares_openBlock _ rfl s s.mark none).cursor
    have hforward : (u.cursor.forward 1).At text u.mark :=
      at_forward (hcursor ▸ hs.cursor) (hcursor ▸ hc) hbreak
    exact stands_push (x := ⟨.key, _, _⟩) hu.placed rfl rfl rfl hforward.inside hforward
      (.refl _) hu.placed.demanded

theorem ends_mappingValue (hs : s.Stands text) (hc : s.cursor.rest = c :: after)
    (hbreak : isBreak c = false) : Ends (Fault.Lies text) (Stands text) s.mappingValue := by
  unfold mappingValue
  split
  · -- The key token, and the opening of its mapping, go where the key may have begun.
    rename_i key hkey
    have hplaced : ((s.insertAt key.number ⟨.key, key.place, key.place⟩).openBlock key.place
        (some key.number) .blockMapping).Placed text :=
      placed_openBlock_of_pending (hs.placed.insertAt hkey rfl rfl) hkey .blockMapping
    have hcursor := ((prepares_insertAt (x := ⟨.key, key.place, key.place⟩) rfl s key.number).trans
      (prepares_openBlock .blockMapping rfl _ key.place (some key.number))).cursor
    have hforward := at_forward (hcursor ▸ hs.cursor) (hcursor ▸ hc) hbreak
    exact stands_push (x := ⟨.value, _, _⟩) hplaced rfl rfl rfl hforward.inside hforward
      (keys_dropped _) hplaced.demanded
  · split
    · exact lies_bare hs _
    · have hplaced := placed_openBlock hs.placed .blockMapping
      have hcursor := (prepares_openBlock .blockMapping rfl s s.mark none).cursor
      have hforward := at_forward (hcursor ▸ hs.cursor) (hcursor ▸ hc) hbreak
      exact stands_push (x := ⟨.value, _, _⟩) hplaced rfl rfl rfl hforward.inside hforward
        (.refl _) hplaced.demanded

theorem ends_named (hs : s.Stands text) (hc : s.cursor.rest = c :: after)
    (hbreak : isBreak c = false) (context : Context) (token : List Char → Token) :
    Ends (Fault.Lies text) (Stands text) (s.named context token) := by
  refine (ends_savePending hs.placed).bind fun u hu => ?_
  have hat : u.cursor.At text {} := hu.cursor ▸ hs.cursor
  refine (Property.ends_name context hat (head_of_rest (hu.cursor ▸ hc) hbreak)).bind ?_
  rintro ⟨name, stop⟩ hstop
  exact stands_push (x := ⟨token name, _, _⟩) hu.placed rfl rfl rfl hstop.inside hstop (.refl _)
    hu.placed.demanded

theorem ends_tag (after : List Char) (hs : s.Stands text) (hc : s.cursor.rest = '!' :: after) :
    Ends (Fault.Lies text) (Stands text) s.tag := by
  refine (ends_savePending hs.placed).bind fun u hu => ?_
  have hat : u.cursor.At text {} := hu.cursor ▸ hs.cursor
  refine (Property.ends_tag u.inFlow hat ⟨after, hu.cursor ▸ hc⟩).bind ?_
  rintro ⟨token, stop⟩ hstop
  exact stands_push (x := ⟨token, _, _⟩) hu.placed rfl rfl rfl hstop.inside hstop (.refl _)
    hu.placed.demanded

theorem ends_blockScalar (hs : s.Stands text) (hc : s.cursor.rest = c :: after)
    (hbreak : isBreak c = false) (style : Style) :
    Ends (Fault.Lies text) (Stands text) (s.blockScalar style) := by
  refine (ends_dropPending hs.placed).bind fun u hu => ?_
  have hat : u.cursor.At text {} := hu.cursor ▸ hs.cursor
  refine (Block.ends_scan _ u.indent hat (head_of_rest (hu.cursor ▸ hc) hbreak)).bind ?_
  rintro ⟨found, stop⟩ hstop
  exact stands_push (x := ⟨.scalar style found, _, _⟩) hu.placed rfl rfl rfl hstop.inside hstop
    (.refl _) hu.placed.demanded

theorem ends_quotedScalar (hs : s.Stands text) (hc : s.cursor.rest = c :: after)
    (hbreak : isBreak c = false) (style : Style) :
    Ends (Fault.Lies text) (Stands text) (s.quotedScalar style) := by
  refine (ends_savePending hs.placed).bind fun u hu => ?_
  have hat : u.cursor.At text {} := hu.cursor ▸ hs.cursor
  have hrest : u.cursor.rest = c :: after := hu.cursor ▸ hc
  have hhead := head_of_rest hrest hbreak
  have hne : u.cursor.rest ≠ [] := by simp [hrest]
  have hpush : ∀ (found : List Char) (stop : Cursor), stop.At text u.mark →
      Stands text { u.push ⟨.scalar style found, u.mark, stop.mark⟩ with
        cursor := stop, keyAllowed := false } := fun found stop hstop =>
    stands_push (x := ⟨.scalar style found, _, _⟩) hu.placed rfl rfl rfl hstop.inside hstop
      (.refl _) hu.placed.demanded
  refine .ite (fun _ => ?_) fun _ => ?_
  · exact (Quoted.ends_single hat hhead hne).bind fun ⟨found, stop⟩ hstop => hpush found stop hstop
  · exact (Quoted.ends_double hat hhead hne).bind fun ⟨found, stop⟩ hstop => hpush found stop hstop

theorem ends_plainScalar (hs : s.Stands text) :
    Ends (Fault.Lies text) (Stands text) s.plainScalar := by
  refine (ends_savePending hs.placed).bind fun u hu => ?_
  have hat : u.cursor.At text {} := hu.cursor ▸ hs.cursor
  refine (Plain.ends_scan u.inFlow u.indent hat).bind ?_
  rintro ⟨found, stop, broken⟩ hstop
  exact stands_push (x := ⟨.scalar .plain found, _, _⟩) hu.placed rfl rfl rfl hstop.inside hstop
    (.refl _) hu.placed.demanded

/-- Whatever token begins with a character, its reader stays in the text.  The cases are the
indicators in the order in which they are tried, none of which is a line break. -/
theorem ends_token (hs : s.Stands text) (hc : s.cursor.rest = c :: after) :
    Ends (Fault.Lies text) (Stands text) (s.token c after) := by
  have hbreak : ∀ {x : Char}, isBreak x = false → (c == x) = true → isBreak c = false := by
    intro x hx hcx
    rwa [beq_iff_eq.mp hcx]
  have hbreak_and : ∀ {x : Char} {b : Bool}, isBreak x = false → (c == x && b) = true →
      isBreak c = false := fun hx hcx => hbreak hx (Bool.and_eq_true_iff.mp hcx).1
  refine .ite (fun h => ends_directive hs hc (hbreak (x := '%') rfl ?_)) fun _ => ?_
  · exact (Bool.and_eq_true_iff.mp h).2
  refine .ite (fun h => ends_documentMark hs h _) fun _ => ?_
  refine .ite (fun h => ends_openFlow hs hc (hbreak rfl h) _) fun _ => ?_
  refine .ite (fun h => ends_openFlow hs hc (hbreak rfl h) _) fun _ => ?_
  refine .ite (fun h => ends_closeFlow hs hc (hbreak rfl h) _) fun _ => ?_
  refine .ite (fun h => ends_closeFlow hs hc (hbreak rfl h) _) fun _ => ?_
  refine .ite (fun h => ends_flowEntry hs hc (hbreak rfl h)) fun _ => ?_
  refine .ite (fun h => ends_blockEntry hs hc (hbreak_and rfl h)) fun _ => ?_
  refine .ite (fun h => ends_explicitKey hs hc (hbreak_and rfl h)) fun _ => ?_
  refine .ite (fun h => ends_mappingValue hs hc (hbreak_and rfl h)) fun _ => ?_
  refine .ite (fun h => ends_named hs hc (hbreak rfl h) _ _) fun _ => ?_
  refine .ite (fun h => ends_named hs hc (hbreak rfl h) _ _) fun _ => ?_
  refine .ite (fun h => ends_tag after hs ?_) fun _ => ?_
  · rw [hc, beq_iff_eq.mp h]
  refine .ite (fun h => ends_blockScalar hs hc (hbreak_and rfl h) _) fun _ => ?_
  refine .ite (fun h => ends_blockScalar hs hc (hbreak_and rfl h) _) fun _ => ?_
  refine .ite (fun h => ends_quotedScalar hs hc (hbreak rfl h) _) fun _ => ?_
  refine .ite (fun h => ends_quotedScalar hs hc (hbreak rfl h) _) fun _ => ?_
  exact .ite (fun _ => ends_plainScalar hs) fun _ => hs.cursor.here.lies _ _

end

/-! ### Steps -/

theorem at_pastBlanks (hs : s.Stands text) : s.pastBlanks.At text s.mark := by
  refine At.skipComment (At.dropWhile ?_ fun x hx => ?_)
  · unfold pastMark
    split
    · rename_i hmark
      exact hs.cursor.here.next_of_peek (beq_iff_eq.mp (Bool.and_eq_true_iff.mp hmark).2) rfl
    · exact hs.cursor.here
  · rcases (by simpa using hx : x = ' ' ∨ _ ∧ x = '\t') with rfl | ⟨-, rfl⟩ <;> rfl

/-- White space leads to a later place of the text. -/
theorem stands_skipSpace (limit : Nat) (hs : s.Stands text) :
    (s.skipSpace limit).Stands text := by
  have hmove : ∀ (s : Lexing) (d : Cursor) (keyAllowed : Bool), s.Stands text →
      d.At text s.mark → Stands text { s with cursor := d, keyAllowed := keyAllowed } :=
    fun s d _ hs hd => ⟨hs.placed.keep rfl rfl hd.upto (.inl hd.inside) (.refl _)
      hs.placed.demanded, hd.of_upto (Mark.start_upto _)⟩
  induction limit generalizing s with
  | zero => exact hs
  | succ limit ih =>
    have hblanks := at_pastBlanks hs
    rw [skipSpace_succ]
    split
    · exact hmove s _ _ hs hblanks
    · split
      · exact ih (hmove s _ _ hs hblanks.newline)
      · exact hmove s _ _ hs hblanks

/-- The end of the text is told just behind it, unless its last line is empty. -/
theorem ends_endText (hs : s.Stands text) (hrest : s.cursor.rest = []) :
    Ends (Fault.Lies text) (fun t => t.Placed text ∧ t.ended = true ∧ t.cursor.rest = [])
      s.endText := by
  unfold endText
  extract_lets here mark closed
  have hmark : s.mark.Upto mark ∧ mark.Near text := by
    dsimp only [mark, here]
    split
    · exact ⟨.refl _, hs.placed.near⟩
    · rename_i hcolumn
      have hend : At text {} ⟨[], s.mark⟩ := hrest ▸ hs.cursor
      exact ⟨.inl (Nat.lt_succ_self _),
        .inr (Mark.near_end hend (by simpa using hcolumn) rfl rfl)⟩
  have hmoved : { s with cursor := ⟨[], mark⟩ }.Placed text :=
    hs.placed.keep rfl rfl hmark.1 hmark.2 (.refl _) hs.placed.demanded
  have hclosed : closed.Placed text := placed_closeBlocks hmoved (-1)
  have hcursor : closed.cursor = ⟨[], mark⟩ := (prepares_closeBlocks _ (-1)).cursor
  refine (ends_dropPending hclosed).bind fun u hu => ?_
  have hu_cursor : u.cursor = ⟨[], mark⟩ := hu.cursor.trans hcursor
  have hu_mark : mark = u.mark := congrArg Cursor.mark hu_cursor.symm
  exact ⟨hu.placed.push (x := ⟨.streamEnd, mark, mark⟩) rfl rfl hu_mark hmark.2 (.refl _)
    hu.placed.near (.refl _) hu.placed.demanded, rfl, congrArg Cursor.rest hu_cursor⟩

/-- A step stays in the text until the end of the text is told. -/
theorem ends_step (hs : s.Stands text) :
    Ends (Fault.Lies text)
      (fun t => t.Placed text ∧
        (t.cursor.At text {} ∨ t.ended = true ∧ t.cursor.rest = [])) s.step := by
  have hspace := stands_skipSpace (s.cursor.rest.length + 1) hs
  refine (ends_dropStale hspace.placed).bind fun u hu => ?_
  have hclosed : (u.closeBlocks u.mark.column).Stands text :=
    ⟨placed_closeBlocks hu.placed _,
      (prepares_closeBlocks u u.mark.column).cursor ▸ hu.cursor ▸ hspace.cursor⟩
  -- Whatever is told next, a key that can no longer begin is forgotten behind it.
  have hstale : ∀ {w : Lexing}, w.Placed text →
      (w.cursor.At text {} ∨ w.ended = true ∧ w.cursor.rest = []) →
      Ends (Fault.Lies text)
        (fun t => t.Placed text ∧
          (t.cursor.At text {} ∨ t.ended = true ∧ t.cursor.rest = [])) w.dropStale :=
    fun hplaced hw => (ends_dropStale hplaced).imp fun t ht =>
      ⟨ht.placed, by rw [ht.cursor, ht.ended]; exact hw⟩
  dsimp only
  split
  · rename_i hrest
    exact (ends_endText hclosed hrest).bind fun w hw => hstale hw.1 (.inr hw.2)
  · rename_i c after hrest
    exact (ends_token hclosed hrest).bind fun w hw => hstale hw.placed (.inl hw.cursor)

end Lexing

/-! ### Whole texts -/

/-- Tokens stand in the text or just behind it, in the order of their places. -/
structure InOrder (text : List Char) (lexemes : List Lexeme) : Prop where
  places : ∀ x ∈ lexemes, x.start.Near text ∧ x.stop.Near text
  sorted : lexemes.Pairwise fun earlier later => earlier.start.Upto later.start

namespace InOrder

theorem sublist {some all : List Lexeme} (h : InOrder text all) (hsome : some.Sublist all) :
    InOrder text some :=
  ⟨fun x hx => h.places x (hsome.subset hx), h.sorted.sublist hsome⟩

end InOrder

/-- What can be read of a text is its beginning. -/
theorem Source.prefix_readFrom (rest : List Char) (offset opened : Nat)
    (block before : List Char) :
    (readFrom rest offset opened block before).chars <+: (block ++ before).reverse ++ rest := by
  induction rest generalizing offset opened block before with
  | nil => exact List.prefix_append _ _
  | cons c rest ih =>
    -- The character may begin a new block, which changes nothing about what has been read.
    rcases hturn : (if opened + blockSize < offset + c.utf8Size then (offset, [], block ++ before)
        else (opened, block, before)) with ⟨opened', block', before'⟩
    have hsame : block' ++ before' = block ++ before := by
      split at hturn
      · obtain ⟨-, rfl, rfl⟩ : _ ∧ [] = block' ∧ block ++ before = before' := by simpa using hturn
        rfl
      · obtain ⟨-, rfl, rfl⟩ : _ ∧ block = block' ∧ before = before' := by simpa using hturn
        rfl
    unfold readFrom
    dsimp only
    rw [hturn, ← hsame]
    split
    · simpa using ih (offset + c.utf8Size) opened' (c :: block') before'
    · simp

theorem Source.prefix_ofString (raw : String) : (ofString raw).chars <+: raw.toList := by
  unfold ofString
  split
  · exact List.prefix_rfl
  · exact prefix_readFrom raw.toList 0 0 [] []

namespace TokenStream

open Lexing

variable {s : Lexing}

theorem stands_start (text : List Char) : Stands text { cursor := .start text } := by
  refine ⟨?_, .outset text⟩
  constructor
  case near => exact .inl (Mark.inside_start text)
  case count => rfl
  case places => exact fun x hx => nomatch hx
  case sorted => exact .nil
  case told => exact fun x hx => nomatch hx
  case keys => exact fun key hkey => nomatch hkey
  case nested => exact .nil
  case demanded => exact fun key hkey => nomatch hkey

/-- The tokens stand in order, and the fault that ends them lies in the text or just behind it. -/
structure Placed (text : List Char) (stream : TokenStream) : Prop where
  lexemes : InOrder text stream.lexemes
  fault : ∀ f ∈ stream.fault, f.Lies text

theorem inOrder_reverse (hs : s.Placed text) : InOrder text s.lexemes.reverse :=
  ⟨fun x hx => hs.places x (List.mem_reverse.mp hx), List.pairwise_reverse.mpr hs.sorted⟩

theorem placed_stopped (hs : s.Placed text) {fault : Fault} (hfault : fault.Lies text) :
    (stopped s fault).Placed text :=
  ⟨(inOrder_reverse hs).sublist (List.take_sublist _ _),
    fun _ hf => Option.mem_some_iff.mp hf ▸ hfault⟩

theorem lies_cutFault (text : List Char) (offset : Nat) : (cutFault offset).Lies text :=
  ⟨.inl (Mark.inside_start text), fun _ hw => nomatch hw⟩

theorem placed_read (cut : Option Nat) (limit : Nat) (hs : s.Stands text) :
    (read cut limit s).Placed text := by
  induction limit generalizing s with
  | zero => exact ⟨inOrder_reverse hs.placed, fun _ hf => nomatch hf⟩
  | succ limit ih =>
    have hstep := ends_step hs
    unfold read
    split
    · rename_i fault heq
      rw [heq] at hstep
      exact placed_stopped hs.placed hstep
    · rename_i next heq
      rw [heq] at hstep
      obtain ⟨hplaced, hnext⟩ := hstep
      split
      · exact ⟨inOrder_reverse hplaced, fun _ hf => nomatch hf⟩
      · rename_i hended
        exact ih ⟨hplaced, hnext.resolve_right fun h => hended h.1⟩
    · rename_i offset fault heq
      rw [heq] at hstep
      split
      · exact placed_stopped hs.placed (lies_cutFault text offset)
      · exact placed_stopped hs.placed hstep
    · rename_i offset next heq
      rw [heq] at hstep
      obtain ⟨hplaced, hnext⟩ := hstep
      split
      · exact placed_stopped hs.placed (lies_cutFault text offset)
      · rename_i hlong
        -- Characters are left, so that the end of the text has not been told.
        exact ih ⟨hplaced, hnext.resolve_right fun h => hlong (by simp [h.2])⟩

/-- The tokens of a text stand in the order of their places, all of them in the text or just behind
it, and so does the fault that ends them. -/
theorem placed_ofString (raw : String) : (ofString raw).Placed raw.toList := by
  have hpart := Source.prefix_ofString raw
  obtain ⟨⟨hplaces, hsorted⟩, hfault⟩ := placed_read (Source.ofString raw).cut
    ((Source.ofString raw).chars.length + 1) (stands_start (Source.ofString raw).chars)
  refine ⟨⟨fun x hx => ?_, hsorted⟩, fun f hf => (hfault f hf).of_part hpart⟩
  exact ⟨(hplaces x hx).1.of_part hpart, (hplaces x hx).2.of_part hpart⟩

end TokenStream

end CollectorTemplate.Yaml
