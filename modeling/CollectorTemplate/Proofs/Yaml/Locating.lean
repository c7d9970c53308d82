/-
Where the events of a document stand.

The grammar tells every event at a token, and where a token is missing, at the one that stands in
its place.  It finds fault with the token that comes next, and names with it the collection that was
being read, which began at a token before.

* `Grammar.Stage` : the tokens ahead stand in order, behind the beginnings of the collections that
  are still open;
* `Grammar.placed_move` : a move keeps this;
* `DocumentEvents.placed_ofString` : events, and the fault that ends them, stand in the text or just
  behind it.
-/
import CollectorTemplate.Proofs.Yaml.Document
import CollectorTemplate.Proofs.Yaml.Placing
import CollectorTemplate.Yaml.Event

namespace CollectorTemplate.Yaml

variable {text : List Char}

/-- Where the collection opened that is read on. -/
def Expectation.opened? : Expectation → Option Mark
  | .blockEntry o | .blockKey o | .blockValue o | .firstFlowEntry o | .flowEntry o | .pairKey o
  | .pairValue o | .pairEnd o | .firstFlowKey o | .flowKey o | .flowValue o
  | .missingValue o => some o
  | .blockNode | .blockNodeOrEntries | .flowNode | .content | .documentEnd
  | .indentlessEntry => none

namespace Grammar

variable {stack : List Expectation} {expected other : Expectation} {lexemes rest : List Lexeme}
  {lexeme : Lexeme} {handles : TagHandles}

/-- The tokens ahead stand in order, and none of them before a collection that is still open. -/
structure Stage (text : List Char) (stack : List Expectation) (lexemes : List Lexeme) : Prop where
  order : InOrder text lexemes
  opened : ∀ e ∈ stack, ∀ o ∈ e.opened?, ∀ x ∈ lexemes, o.Upto x.start

namespace Stage

theorem suffix (h : Stage text stack lexemes) (hrest : rest <:+ lexemes) : Stage text stack rest :=
  ⟨h.order.sublist hrest.sublist, fun e he o ho x hx => h.opened e he o ho x (hrest.subset hx)⟩

theorem tail (h : Stage text stack (lexeme :: rest)) : Stage text stack rest :=
  h.suffix (List.suffix_cons lexeme rest)

theorem start (h : Stage text stack (lexeme :: rest)) : lexeme.start.Near text :=
  (h.order.places lexeme List.mem_cons_self).1

theorem stop (h : Stage text stack (lexeme :: rest)) : lexeme.stop.Near text :=
  (h.order.places lexeme List.mem_cons_self).2

theorem pop (h : Stage text (expected :: stack) lexemes) : Stage text stack lexemes :=
  ⟨h.order, fun e he => h.opened e (List.mem_cons_of_mem _ he)⟩

/-- What is expected of one collection gives way to something else of the same. -/
theorem turn (h : Stage text (expected :: stack) lexemes)
    (hother : other.opened? = expected.opened?) : Stage text (other :: stack) lexemes := by
  refine ⟨h.order, List.forall_mem_cons.mpr ⟨?_, h.pop.opened⟩⟩
  rw [hother]
  exact h.opened expected List.mem_cons_self

/-- What belongs to no collection is expected first. -/
theorem push (h : Stage text stack lexemes) (hother : other.opened? = none) :
    Stage text (other :: stack) lexemes := by
  refine ⟨h.order, List.forall_mem_cons.mpr ⟨?_, h.opened⟩⟩
  rw [hother]
  exact fun _ ho => nomatch ho

/-- A token opens a collection. -/
theorem opening (h : Stage text stack (lexeme :: rest))
    (hother : other.opened? = some lexeme.start) : Stage text (other :: stack) rest := by
  refine ⟨h.tail.order, List.forall_mem_cons.mpr ⟨fun o ho => ?_, h.tail.opened⟩⟩
  obtain rfl : lexeme.start = o := Option.some.inj (hother.symm.trans ho)
  exact (List.pairwise_cons.mp h.order.sorted).1

/-- A fault found with the next token while reading a collection. -/
theorem lies {opened : Mark} (h : Stage text (expected :: stack) (lexeme :: rest))
    (hopened : expected.opened? = some opened) (problem : Problem) (context : Context) :
    Fault.Lies text ⟨problem, lexeme.start, some (context, opened)⟩ :=
  ⟨h.start, fun _ hw => Option.mem_some_iff.mp hw ▸
    h.opened expected List.mem_cons_self opened hopened lexeme List.mem_cons_self⟩

end Stage

/-- What a move tells stands in the text or just behind it, and so does the fault it fails with. -/
def Outcome.Placed (text : List Char) : Outcome → Prop
  | .starved => True
  | .failed f => f.Lies text
  | .told m => m.event.place.Near text ∧ Stage text m.stack m.rest

/-- Properties in front of a node stand in the text or just behind it, the tag not before the first
of them. -/
structure Front.Placed (text : List Char) (found : Front) : Prop where
  start : ∀ m ∈ found.start, m.Near text
  tag : ∀ tag ∈ found.tag, tag.2.2.Near text ∧ ∀ m ∈ found.start, m.Upto tag.2.2

namespace Front.Placed

variable {anchor : Option (List Char)} {name : List Char} {suffix : TagText} {first place : Mark}

theorem empty : Placed text {} := ⟨fun _ h => (nomatch h), fun _ h => nomatch h⟩

theorem untagged (hfirst : first.Near text) : Placed text ⟨anchor, none, some first⟩ :=
  ⟨fun _ hm => Option.mem_some_iff.mp hm ▸ hfirst, fun _ ht => nomatch ht⟩

theorem tagged (hfirst : first.Near text) (hplace : place.Near text) (hupto : first.Upto place) :
    Placed text ⟨anchor, some (name, suffix, place), some first⟩ := by
  refine ⟨fun _ hm => Option.mem_some_iff.mp hm ▸ hfirst, fun tag ht => ?_⟩
  obtain rfl := Option.mem_some_iff.mp ht
  exact ⟨hplace, fun _ hm => Option.mem_some_iff.mp hm ▸ hupto⟩

end Front.Placed

theorem placed_front (h : InOrder text lexemes) :
    (front lexemes).2 <:+ lexemes ∧ (front lexemes).1.Placed text := by
  have hhead : ∀ {x rest}, lexemes = x :: rest → x.start.Near text := by
    rintro x rest rfl
    exact (h.places x List.mem_cons_self).1
  unfold front
  split
  · -- An anchor, and the tag behind it.
    rename_i a first stop name suffix place stop' rest
    have hplace := (h.places _ (List.mem_cons_of_mem _ List.mem_cons_self)).1
    have hupto := (List.pairwise_cons.mp h.sorted).1 _ List.mem_cons_self
    exact ⟨⟨[_, _], rfl⟩, .tagged (hhead rfl) hplace hupto⟩
  · exact ⟨⟨[_, _], rfl⟩, .tagged (hhead rfl) (hhead rfl) (.refl _)⟩
  · exact ⟨⟨[_], rfl⟩, .untagged (hhead rfl)⟩
  · exact ⟨⟨[_], rfl⟩, .tagged (hhead rfl) (hhead rfl) (.refl _)⟩
  · exact ⟨List.suffix_rfl, .empty⟩

variable {block entries : Bool}

theorem placed_nodeContent {found : Front} {tag : Option TagText} (h : Stage text stack lexemes)
    (hfound : ∀ m ∈ found.start, m.Near text) :
    (nodeContent block entries stack found tag lexemes).Placed text := by
  unfold nodeContent
  split
  · trivial
  rename_i lexeme rest
  have hstart : (found.start.getD lexeme.start).Near text := by
    cases hfirst : found.start with
    | none => exact h.start
    | some m => exact hfound m hfirst
  dsimp only
  split
  · exact ⟨hstart, h.tail⟩
  · exact ⟨hstart, h.opening rfl⟩
  · exact ⟨hstart, h.opening rfl⟩
  split
  · exact ⟨hstart, h.push rfl⟩
  split
  · exact ⟨hstart, h.opening rfl⟩
  split
  · exact ⟨hstart, h.opening rfl⟩
  split
  · exact ⟨hstart, h⟩
  · -- No properties are in front, so the node would have begun at the token itself.
    rename_i hnone
    refine ⟨h.start, fun _ hw => ?_⟩
    obtain rfl := Option.mem_some_iff.mp hw
    rw [Option.not_isSome_iff_eq_none.mp hnone]
    exact .refl _

theorem placed_node (h : Stage text stack lexemes) :
    (node block entries handles stack lexemes).Placed text := by
  unfold node
  split
  · exact ⟨h.start, h.tail⟩
  obtain ⟨hsuffix, hfront⟩ := placed_front h.order
  generalize front lexemes = f at hsuffix hfront
  obtain ⟨found, rest⟩ := f
  have hrest : Stage text stack rest := h.suffix hsuffix
  dsimp only
  split
  · trivial
  · exact placed_nodeContent hrest hfront.start
  · rename_i handle suffix place hfound
    split
    · obtain ⟨hplace, hupto⟩ := hfront.tag _ hfound
      refine ⟨hplace, fun _ hw => ?_⟩
      obtain rfl := Option.mem_some_iff.mp hw
      cases hfirst : found.start with
      | none => exact .refl _
      | some m => exact hupto m hfirst
    · exact placed_nodeContent hrest hfront.start

theorem placed_nodeUnless {missing : Token → Bool} {place : Mark} (h : Stage text stack lexemes)
    (hplace : place.Near text) :
    (nodeUnless missing place block entries handles stack lexemes).Placed text := by
  unfold nodeUnless
  split
  · trivial
  split
  · exact ⟨hplace, h⟩
  · exact placed_node h

theorem placed_sequenceEntry {opened : Mark} (h : Stage text (expected :: stack) lexemes)
    (hopened : expected.opened? = some opened) :
    (sequenceEntry handles stack opened lexemes).Placed text := by
  unfold sequenceEntry
  split
  · trivial
  split
  · exact ⟨h.start, h.tail.turn hopened.symm⟩
  · exact ⟨h.start, h.tail.pop⟩
  · exact placed_node (h.turn hopened.symm)

theorem placed_mappingKey {opened : Mark} (h : Stage text (expected :: stack) lexemes)
    (hopened : expected.opened? = some opened) :
    (mappingKey handles stack opened lexemes).Placed text := by
  unfold mappingKey
  split
  · trivial
  split
  · trivial
  · exact placed_nodeUnless (h.tail.turn hopened.symm) h.tail.start
  · exact ⟨h.start, h.tail.pop⟩
  · exact placed_node (h.turn hopened.symm)

variable (handles) in
/-- Whatever is expected, a move stays in order.  A node behind a token that announces it is told at
that token if it is missing. -/
theorem placed_move (h : Stage text (expected :: stack) (lexeme :: rest)) :
    (move handles expected stack lexeme rest).Placed text := by
  unfold move
  cases expected with
  | blockNode | blockNodeOrEntries | flowNode => exact placed_node h.pop
  | documentEnd => trivial
  | pairEnd opened | missingValue opened => exact ⟨h.start, h.turn rfl⟩
  | firstFlowEntry opened => exact placed_sequenceEntry h rfl
  | firstFlowKey opened => exact placed_mappingKey h rfl
  | content =>
    dsimp only
    split
    · exact ⟨h.start, h.pop⟩
    · exact placed_node h.pop
  | blockEntry opened =>
    dsimp only
    split
    · exact placed_nodeUnless h.tail h.stop
    · exact ⟨h.start, h.tail.pop⟩
    · exact h.lies rfl _ _
  | indentlessEntry =>
    dsimp only
    split
    · exact placed_nodeUnless h.tail h.stop
    · exact ⟨h.start, h.pop⟩
  | blockKey opened =>
    dsimp only
    split
    · exact placed_nodeUnless (h.tail.turn rfl) h.stop
    · exact ⟨h.start, h.tail.pop⟩
    · exact h.lies rfl _ _
  | blockValue opened =>
    dsimp only
    split
    · exact placed_nodeUnless (h.tail.turn rfl) h.stop
    · exact ⟨h.start, h.turn rfl⟩
  | flowEntry opened =>
    dsimp only
    split
    · exact placed_sequenceEntry h.tail rfl
    · exact ⟨h.start, h.tail.pop⟩
    · exact h.lies rfl _ _
  | pairKey opened =>
    dsimp only
    split
    · exact ⟨h.stop, h.tail.turn rfl⟩
    · exact ⟨h.stop, h.tail.turn rfl⟩
    · exact ⟨h.stop, h.tail.turn rfl⟩
    · exact placed_node (h.turn rfl)
  | pairValue opened | flowValue opened =>
    dsimp only
    split
    · trivial
    · exact placed_nodeUnless (h.tail.turn rfl) h.tail.start
    · exact ⟨h.start, h.turn rfl⟩
  | flowKey opened =>
    dsimp only
    split
    · exact placed_mappingKey h.tail rfl
    · exact ⟨h.start, h.tail.pop⟩
    · exact h.lies rfl _ _

variable (handles) in
/-- All events of a run stand in the text or just behind it, and so does the fault it ends with. -/
theorem placed_run (limit : Nat) (h : Stage text stack lexemes) :
    (∀ e ∈ (run handles limit stack lexemes).1, e.place.Near text) ∧
      ∀ f, (run handles limit stack lexemes).2.1 = some (some f) → f.Lies text := by
  fun_induction run handles limit stack lexemes with
  | case1 limit lexemes => exact ⟨List.forall_mem_nil _, fun _ h => nomatch h⟩
  | case2 expected stack lexemes => exact ⟨List.forall_mem_nil _, fun _ h => nomatch h⟩
  | case3 limit expected stack => exact ⟨List.forall_mem_nil _, fun _ h => nomatch h⟩
  | case4 limit expected stack lexeme rest hmove =>
    exact ⟨List.forall_mem_nil _, fun _ h => nomatch h⟩
  | case5 limit expected stack lexeme rest fault hmove =>
    have hfault := placed_move handles h
    rw [hmove] at hfault
    refine ⟨List.forall_mem_nil _, fun f hf => ?_⟩
    obtain rfl : fault = f := by simpa using hf
    exact hfault
  | case6 limit expected stack lexeme rest m hmove events stop left hrun ih =>
    have htold := placed_move handles h
    rw [hmove] at htold
    rw [hrun] at ih
    obtain ⟨hevents, hstop⟩ := ih htold.2
    exact ⟨List.forall_mem_cons.mpr ⟨htold.1, hevents⟩, hstop⟩

end Grammar

namespace DocumentEvents

open Grammar

/-- Events stand in the text or just behind it, and so does the fault that ends them. -/
structure Placed (text : List Char) (d : DocumentEvents) : Prop where
  events : ∀ e ∈ d.events, e.place.Near text
  fault : ∀ f ∈ d.fault, f.Lies text

variable {lexemes : List Lexeme} {handles : TagHandles} {fault : Option Fault}

theorem ends_directives (version : Bool) (own : TagHandles) (h : InOrder text lexemes) :
    Ends (Fault.Lies text) (fun r => r.2 <:+ lexemes) (directives lexemes version own) := by
  have hlies : ∀ {x rest} problem, InOrder text (x :: rest) →
      Fault.Lies text ⟨problem, x.start, none⟩ := fun problem h =>
    ⟨(h.places _ List.mem_cons_self).1, fun _ h => nomatch h⟩
  fun_induction directives lexemes version own with
  | case1 | case2 | case4 => exact hlies _ h
  | case3 major minor start stop rest version own hversion hnumber ih =>
    have hrest := h.sublist (List.sublist_cons_self _ rest)
    exact (ih hrest).imp fun r hr => hr.trans (List.suffix_cons _ rest)
  | case5 handle expansion start stop rest version own hhandle ih =>
    have hrest := h.sublist (List.sublist_cons_self _ rest)
    exact (ih hrest).imp fun r hr => hr.trans (List.suffix_cons _ rest)
  | case6 => exact List.suffix_rfl

theorem placed_content {expected : Expectation} (hexpected : expected.opened? = none)
    (h : InOrder text lexemes) (hfault : ∀ f ∈ fault, f.Lies text) :
    (content handles expected lexemes fault).Placed text := by
  have hstage : Stage text [expected] lexemes := Stage.push ⟨h, List.forall_mem_nil _⟩ hexpected
  obtain ⟨hevents, hstop⟩ := placed_run handles (4 * lexemes.length + 4) hstage
  unfold content
  generalize run handles (4 * lexemes.length + 4) [expected] lexemes = r at hevents hstop
  split
  · exact ⟨hevents, hfault⟩
  · exact ⟨hevents, fun f hf => hstop f (by rw [Option.mem_some_iff.mp hf])⟩
  · exact ⟨hevents, hfault⟩
  · exact ⟨hevents, fun _ h => nomatch h⟩

theorem placed_ofTokens {stream : TokenStream} (h : stream.Placed text) :
    (ofTokens stream).Placed text := by
  obtain ⟨lexemes, fault⟩ := stream
  obtain ⟨horder, hfault⟩ := h
  unfold ofTokens
  dsimp only at horder hfault ⊢
  split
  · exact ⟨List.forall_mem_nil _, hfault⟩
  · exact ⟨List.forall_mem_nil _, fun _ h => nomatch h⟩
  · rename_i first rest _
    have hdirectives := ends_directives false [] horder
    split
    rotate_left 3
    · exact placed_content rfl horder hfault
    -- Directives and a document's marker begin alike.
    all_goals
      split
      · rename_i own heq
        rw [heq] at hdirectives
        exact ⟨List.forall_mem_nil _, fun f hf => Option.mem_some_iff.mp hf ▸ hdirectives⟩
      · exact ⟨List.forall_mem_nil _, hfault⟩
      · rename_i handles start stop body heq
        rw [heq] at hdirectives
        have hbody := (List.sublist_cons_self _ body).trans hdirectives.sublist
        exact placed_content rfl (horder.sublist hbody) hfault
      · rename_i handles lexeme left _ heq
        rw [heq] at hdirectives
        have hplace := (horder.places lexeme (hdirectives.subset List.mem_cons_self)).1
        refine ⟨List.forall_mem_nil _, fun f hf => Option.mem_some_iff.mp hf ▸ ⟨hplace, ?_⟩⟩
        exact fun _ h => nomatch h

theorem placed_ofString (raw : String) : (ofString raw).Placed raw.toList :=
  placed_ofTokens (TokenStream.placed_ofString raw)

end DocumentEvents

end CollectorTemplate.Yaml
