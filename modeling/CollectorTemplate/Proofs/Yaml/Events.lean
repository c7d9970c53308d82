/-
The events of a written document.

The grammar makes of the tokens of a tree its events: collections begin and end, and their keys and
values follow each other.

* `Tree.events` : the events of a tree;
* `Grammar.Yields` : the moves from one stack and its tokens to another;
* `Grammar.yieldsNode` : the tokens of a tree yield its events, by induction on the tree;
* `DocumentEvents.ofTokens_tree` : the events of a stream that holds the tokens of a tree.
-/
import CollectorTemplate.Proofs.Yaml.Grammar
import CollectorTemplate.Proofs.Yaml.Tokens

namespace CollectorTemplate

open Yaml Scalar

namespace Tree

mutual

/-- The events of a tree. -/
def events : Tree → List Yaml.Event
  | .null => [.scalar {} .plain "null".toList]
  | .bool b => [.scalar {} .plain (toString b).toList]
  | .integer n => [.scalar {} .plain (toString n).toList]
  | .float x => [.scalar {} .plain (number.render x).toList]
  | .string s => [.scalar {} (styleOf s.toList) s.toList]
  | .sequence items => .sequenceStart {} :: itemEvents items ++ [.sequenceEnd]
  | .mapping entries => .mappingStart {} :: entryEvents entries ++ [.mappingEnd]

def itemEvents : List Tree → List Yaml.Event
  | [] => []
  | item :: rest => events item ++ itemEvents rest

def entryEvents : List (String × Tree) → List Yaml.Event
  | [] => []
  | (key, value) :: rest =>
    .scalar {} (styleOf key.toList) key.toList :: events value ++ entryEvents rest

end

theorem events_leaf {tree : Tree} {style : Style} {text : List Char}
    (h : leaf? tree = some (style, text)) : events tree = [.scalar {} style text] := by
  cases tree with
  | sequence | mapping => nomatch h
  | _ => obtain ⟨rfl, rfl⟩ := Prod.mk.inj (Option.some.inj h); rfl

end Tree

namespace Yaml.Grammar

/-! ### Moves in a row -/

/-- Moves from one stack and its tokens to another, with the events they tell. -/
inductive Yields (handles : TagHandles) (stack' : List Expectation) (rest' : List Lexeme) :
    List Expectation → List Lexeme → List Event → Prop
  | refl : Yields handles stack' rest' stack' rest' []
  | head {expected : Expectation} {stack : List Expectation} {lexeme : Lexeme} {rest : List Lexeme}
      {told : List Event} {m : Move} (hmove : move handles expected stack lexeme rest = .told m)
      (htail : Yields handles stack' rest' m.stack m.rest told) :
      Yields handles stack' rest' (expected :: stack) (lexeme :: rest) (m.event.event :: told)

/-- An outcome and the moves after it. -/
def Outcome.Yields (outcome : Outcome) (handles : TagHandles) (stack' : List Expectation)
    (rest' : List Lexeme) (told : List Event) : Prop :=
  ∃ m later, outcome = .told m ∧ Grammar.Yields handles stack' rest' m.stack m.rest later ∧
    told = m.event.event :: later

variable {handles : TagHandles} {stack stack' : List Expectation}
  {lexemes rest rest' : List Lexeme} {lexeme : Lexeme} {expected : Expectation} {opened : Mark}
  {outcome : Outcome} {told more : List Event} {block entries : Bool} {missing : Token → Bool}

namespace Yields

theorem of_outcome (h : outcome.Yields handles stack' rest' told)
    (hmove : move handles expected stack lexeme rest = outcome) :
    Yields handles stack' rest' (expected :: stack) (lexeme :: rest) told := by
  obtain ⟨m, later, rfl, hlater, rfl⟩ := h
  exact .head hmove hlater

theorem trans (h : Yields handles stack' rest' stack lexemes told) {stack'' : List Expectation}
    {rest'' : List Lexeme} (h' : Yields handles stack'' rest'' stack' rest' more) :
    Yields handles stack'' rest'' stack lexemes (told ++ more) := by
  induction h with
  | refl => exact h'
  | head hmove _ ih => exact .head hmove ih

/-- The moves take tokens off the budget of the machine. -/
theorem length_le (h : Yields handles stack' rest' stack lexemes told) :
    told.length + 4 * rest'.length + slack stack' ≤ 4 * lexemes.length + slack stack := by
  induction h with
  | refl => simp
  | @head expected stack lexeme rest told m hmove _ ih =>
    have hexpected : expected ≠ .documentEnd := by
      rintro rfl
      nomatch hmove
    have hsound := move_sound handles stack lexeme rest hexpected
    rw [hmove] at hsound
    have hbudget := hsound.budget
    simp only [List.length_cons, slack_cons]
    omega

/-- What the moves yield, the machine tells within its limit. -/
theorem run_eq (h : Yields handles [] rest' stack lexemes told) {limit : Nat}
    (hlimit : told.length ≤ limit) :
    ∃ events, run handles limit stack lexemes = (events, none, rest') ∧
      events.map (·.event) = told := by
  induction h generalizing limit with
  | refl => cases limit <;> exact ⟨[], rfl, rfl⟩
  | head hmove _ ih =>
    obtain ⟨limit, rfl⟩ := Nat.exists_eq_add_one.mpr (Nat.zero_lt_of_lt hlimit)
    obtain ⟨events, hrun, htold⟩ := ih (Nat.le_of_succ_le_succ hlimit)
    exact ⟨_ :: events, by simp only [run, hmove, hrun], congrArg _ htold⟩

end Yields

/-- Moves may follow an outcome. -/
theorem Outcome.Yields.trans (h : outcome.Yields handles stack rest told)
    (h' : Grammar.Yields handles stack' rest' stack rest more) :
    outcome.Yields handles stack' rest' (told ++ more) := by
  obtain ⟨m, later, houtcome, hlater, rfl⟩ := h
  exact ⟨m, later ++ more, houtcome, hlater.trans h', rfl⟩

/-! ### Nodes -/

/-- Whether a token begins a node on its own. -/
def beginsNode : Token → Bool
  | .scalar .. | .sequenceOpen | .mappingOpen | .blockSequence | .blockMapping => true
  | _ => false

/-- The first token of a tree begins a node, or it is the dash of a sequence in the column of its
key. -/
theorem head_tokens (tree : Tree) (lead : Lead) :
    ∃ token more, tree.tokens lead = token :: more ∧
      (beginsNode token = true ∨ lead = .key ∧ token = .blockEntry) := by
  cases tree with
  | sequence items =>
    cases items with
    | nil => exact ⟨_, _, rfl, .inl rfl⟩
    | cons item items =>
      cases lead with
      | key => exact ⟨_, _, rfl, .inr ⟨rfl, rfl⟩⟩
      | mark => exact ⟨_, _, rfl, .inl rfl⟩
  | mapping entries =>
    cases entries with
    | nil => exact ⟨_, _, rfl, .inl rfl⟩
    | cons entry entries => exact ⟨_, _, rfl, .inl rfl⟩
  | _ => exact ⟨_, _, rfl, .inl rfl⟩

/-- The tokens of a tree are read as its events.  Behind a sequence that has no end of its own no
dash may come. -/
def YieldsNode (tree : Tree) : Prop :=
  ∀ {lead : Lead} (entries : Bool) {lexemes : List Lexeme} (rest : List Lexeme)
    (handles : TagHandles) (stack : List Expectation), lexemes.map (·.token) = tree.tokens lead →
    (lead = .key → entries = true ∧ ∃ next after, rest = next :: after ∧ next.token ≠ .blockEntry) →
    (node true entries handles stack (lexemes ++ rest)).Yields handles stack rest tree.events

/-- Where a node may be missing it is there. -/
theorem nodeUnless_eq {tree : Tree} {lead : Lead} (h : lexemes.map (·.token) = tree.tokens lead)
    (hmissing : ∀ token, beginsNode token = true ∨ lead = .key ∧ token = .blockEntry →
      missing token = false) (place : Mark) :
    nodeUnless missing place block entries handles stack (lexemes ++ rest) =
      node block entries handles stack (lexemes ++ rest) := by
  obtain ⟨token, more, htokens, hbegins⟩ := head_tokens tree lead
  obtain ⟨first, later, rfl, rfl, -⟩ := List.map_eq_cons_iff.mp (h.trans htokens)
  exact if_neg (by rw [hmissing _ hbegins]; exact Bool.false_ne_true)

theorem yieldsNode_leaf {tree : Tree} {style : Style} {text : List Char}
    (h : leaf? tree = some (style, text)) : YieldsNode tree := by
  intro lead entries lexemes rest handles stack hlexemes _
  rw [Tree.tokens_leaf h] at hlexemes
  rw [Tree.events_leaf h]
  obtain ⟨⟨token, start, stop⟩, later, rfl, rfl, hlater⟩ := List.map_eq_cons_iff.mp hlexemes
  obtain rfl := List.map_eq_nil_iff.mp hlater
  exact ⟨_, [], rfl, .refl, rfl⟩

theorem yieldsNode_emptySequence : YieldsNode (.sequence []) := by
  intro lead entries lexemes rest handles stack hlexemes _
  obtain ⟨⟨_, start, stop⟩, later, rfl, rfl, hlater⟩ := List.map_eq_cons_iff.mp hlexemes
  obtain ⟨⟨_, start', stop'⟩, last, rfl, rfl, hlast⟩ := List.map_eq_cons_iff.mp hlater
  obtain rfl := List.map_eq_nil_iff.mp hlast
  exact ⟨_, [.sequenceEnd], rfl,
    .head (m := ⟨⟨.sequenceEnd, start'⟩, stack, rest⟩) rfl .refl, rfl⟩

theorem yieldsNode_emptyMapping : YieldsNode (.mapping []) := by
  intro lead entries lexemes rest handles stack hlexemes _
  obtain ⟨⟨_, start, stop⟩, later, rfl, rfl, hlater⟩ := List.map_eq_cons_iff.mp hlexemes
  obtain ⟨⟨_, start', stop'⟩, last, rfl, rfl, hlast⟩ := List.map_eq_cons_iff.mp hlater
  obtain rfl := List.map_eq_nil_iff.mp hlast
  exact ⟨_, [.mappingEnd], rfl,
    .head (m := ⟨⟨.mappingEnd, start'⟩, stack, rest⟩) rfl .refl, rfl⟩

/-- The items of a sequence, at each dash of which an item is expected. -/
theorem yields_items (rest : List Lexeme) {items : List Tree}
    (hitems : ∀ item ∈ items, YieldsNode item)
    (hmissing : ∀ token, beginsNode token = true → missing token = false)
    (hexpected : ∀ lexeme rest, lexeme.token = .blockEntry →
      move handles expected stack lexeme rest =
        nodeUnless missing lexeme.stop true false handles (expected :: stack) rest)
    (h : lexemes.map (·.token) = Tree.itemTokens items) :
    Yields handles (expected :: stack) rest (expected :: stack) (lexemes ++ rest)
      (Tree.itemEvents items) := by
  induction items generalizing lexemes with
  | nil =>
    obtain rfl := List.map_eq_nil_iff.mp h
    exact .refl
  | cons item items ih =>
    obtain ⟨hitem, hitems⟩ := List.forall_mem_cons.mp hitems
    obtain ⟨dash, later, rfl, hdash, hlater⟩ := List.map_eq_cons_iff.mp h
    obtain ⟨first, later, rfl, hfirst, hlater⟩ := List.map_eq_append_iff.mp hlater
    have hnode := hitem false (later ++ rest) handles (expected :: stack) hfirst fun h => nomatch h
    have hmove := (hexpected dash (first ++ (later ++ rest)) hdash).trans
      (nodeUnless_eq hfirst (fun token htoken => hmissing token
        (htoken.resolve_right fun h => nomatch h.1)) dash.stop)
    rw [List.cons_append, List.append_assoc]
    exact (Yields.of_outcome hnode hmove).trans (ih hitems hlater)

/-- The entries of a mapping. -/
theorem yields_entries (handles : TagHandles) (stack : List Expectation) (opened : Mark)
    (next : Lexeme) (after : List Lexeme) {items : List (String × Tree)}
    (hvalues : ∀ entry ∈ items, YieldsNode entry.2)
    (hnext : next.token ≠ .blockEntry) (h : lexemes.map (·.token) = Tree.entryTokens items) :
    Yields handles (.blockKey opened :: stack) (next :: after) (.blockKey opened :: stack)
      (lexemes ++ next :: after) (Tree.entryEvents items) := by
  have hmissing (lead : Lead) (token : Token)
      (h : beginsNode token = true ∨ lead = .key ∧ token = .blockEntry) :
      endsBlockPart token = false := by
    rcases h with h | ⟨-, rfl⟩
    · cases token with
      | key | value | blockEnd => nomatch h
      | _ => rfl
    · rfl
  induction items generalizing lexemes with
  | nil =>
    obtain rfl := List.map_eq_nil_iff.mp h
    exact .refl
  | cons entry items ih =>
    obtain ⟨key, value⟩ := entry
    obtain ⟨hvalue, hvalues⟩ := List.forall_mem_cons.mp hvalues
    obtain ⟨⟨_, start, stop⟩, lexemes, rfl, rfl, hkey⟩ := List.map_eq_cons_iff.mp h
    obtain ⟨⟨_, start', stop'⟩, lexemes, rfl, rfl, hvalue'⟩ := List.map_eq_cons_iff.mp hkey
    obtain ⟨⟨_, place, behind⟩, lexemes, rfl, rfl, hlexemes⟩ := List.map_eq_cons_iff.mp hvalue'
    obtain ⟨first, later, rfl, hfirst, hlater⟩ := List.map_eq_append_iff.mp hlexemes
    obtain ⟨follower, others, hfollows, hfollower⟩ :
        ∃ follower others, later ++ next :: after = follower :: others ∧
          follower.token ≠ .blockEntry := by
      cases items with
      | nil =>
        obtain rfl := List.map_eq_nil_iff.mp hlater
        exact ⟨next, after, rfl, hnext⟩
      | cons entry items =>
        obtain ⟨follower, others, rfl, hfollower, -⟩ := List.map_eq_cons_iff.mp hlater
        refine ⟨follower, others ++ next :: after, rfl, ?_⟩
        rw [hfollower]
        exact Token.noConfusion
    have hnode := hvalue _ _ handles (.blockKey opened :: stack) hfirst fun _ =>
        ⟨rfl, follower, others, hfollows, hfollower⟩
    have hmove : move handles (.blockValue opened) stack ⟨.value, place, behind⟩
        (first ++ (later ++ next :: after)) =
        node true true handles (.blockKey opened :: stack) (first ++ (later ++ next :: after)) :=
      nodeUnless_eq hfirst (hmissing _) behind
    have hentry := (Yields.of_outcome hnode hmove).trans (ih hvalues hlater)
    rw [List.cons_append, List.cons_append, List.cons_append, List.append_assoc]
    exact .head (m := ⟨⟨.scalar {} (styleOf key.toList) key.toList, start'⟩,
      .blockValue opened :: stack, ⟨.value, place, behind⟩ :: (first ++ (later ++ next :: after))⟩)
      rfl hentry

theorem node_blockSequence (rest : List Lexeme) (start stop : Mark) :
    node true entries handles stack (⟨.blockSequence, start, stop⟩ :: rest) =
      .told ⟨⟨.sequenceStart {}, start⟩, .blockEntry start :: stack, rest⟩ := by
  cases entries <;> rfl

theorem node_blockMapping (rest : List Lexeme) (start stop : Mark) :
    node true entries handles stack (⟨.blockMapping, start, stop⟩ :: rest) =
      .told ⟨⟨.mappingStart {}, start⟩, .blockKey start :: stack, rest⟩ := by
  cases entries <;> rfl

theorem yieldsNode_sequence {items : List Tree} (hitems : ∀ item ∈ items, YieldsNode item)
    (hne : items ≠ []) : YieldsNode (.sequence items) := by
  intro lead entries lexemes rest handles stack hlexemes hlead
  obtain ⟨item, items, rfl⟩ := List.exists_cons_of_ne_nil hne
  cases lead with
  | key =>
    obtain ⟨rfl, next, after, rfl, hnext⟩ := hlead rfl
    have hmissing (token : Token) (h : beginsNode token = true) :
        endsIndentlessEntry token = false := by
      cases token with
      | blockEntry | key | value | blockEnd => nomatch h
      | _ => rfl
    have hexpected (lexeme : Lexeme) (rest : List Lexeme) (h : lexeme.token = .blockEntry) :
        move handles .indentlessEntry stack lexeme rest =
          nodeUnless endsIndentlessEntry lexeme.stop true false handles (.indentlessEntry :: stack)
            rest := by
      rw [move, h]
    have hentries := yields_items (next :: after) hitems hmissing hexpected hlexemes
    -- The first dash is still there for the first item; what follows the last item ends them.
    have hend : move handles .indentlessEntry stack next after =
        .told ⟨⟨.sequenceEnd, next.start⟩, stack, next :: after⟩ := by
      simp only [move]
    obtain ⟨dash, later, rfl, hdash, -⟩ := List.map_eq_cons_iff.mp hlexemes
    obtain ⟨_, start, stop⟩ := dash
    obtain rfl : Token.blockEntry = _ := hdash.symm
    exact ⟨_, _, rfl, hentries.trans (.head hend .refl), rfl⟩
  | mark =>
    have hmissing (token : Token) (h : beginsNode token = true) : endsBlockEntry token = false := by
      cases token with
      | blockEntry | blockEnd => nomatch h
      | _ => rfl
    obtain ⟨⟨_, start, stop⟩, later, rfl, rfl, hlater⟩ := List.map_eq_cons_iff.mp hlexemes
    obtain ⟨inner, closing, rfl, hinner, hclosing⟩ := List.map_eq_append_iff.mp hlater
    obtain ⟨⟨_, place, behind⟩, last, rfl, rfl, hlast⟩ := List.map_eq_cons_iff.mp hclosing
    obtain rfl := List.map_eq_nil_iff.mp hlast
    have hexpected (lexeme : Lexeme) (rest : List Lexeme) (h : lexeme.token = .blockEntry) :
        move handles (.blockEntry start) stack lexeme rest =
          nodeUnless endsBlockEntry lexeme.stop true false handles (.blockEntry start :: stack)
            rest := by
      rw [move, h]
    have hentries := yields_items (⟨.blockEnd, place, behind⟩ :: rest) hitems hmissing
      hexpected hinner
    rw [List.cons_append, List.append_assoc]
    exact ⟨_, _, node_blockSequence _ start stop, hentries.trans
      (.head (m := ⟨⟨.sequenceEnd, place⟩, stack, rest⟩) rfl .refl), rfl⟩

theorem yieldsNode_mapping {items : List (String × Tree)}
    (hvalues : ∀ entry ∈ items, YieldsNode entry.2) (hne : items ≠ []) :
    YieldsNode (.mapping items) := by
  intro lead entries lexemes rest handles stack hlexemes _
  obtain ⟨entry, items, rfl⟩ := List.exists_cons_of_ne_nil hne
  obtain ⟨⟨_, start, stop⟩, later, rfl, rfl, hlater⟩ := List.map_eq_cons_iff.mp hlexemes
  obtain ⟨inner, closing, rfl, hinner, hclosing⟩ := List.map_eq_append_iff.mp hlater
  obtain ⟨⟨_, place, behind⟩, last, rfl, rfl, hlast⟩ := List.map_eq_cons_iff.mp hclosing
  obtain rfl := List.map_eq_nil_iff.mp hlast
  have hentries := yields_entries handles stack start ⟨.blockEnd, place, behind⟩ rest hvalues
    Token.noConfusion hinner
  rw [List.cons_append, List.append_assoc]
  exact ⟨_, _, node_blockMapping _ start stop, hentries.trans
    (.head (m := ⟨⟨.mappingEnd, place⟩, stack, rest⟩) rfl .refl), rfl⟩

/-- The tokens of a tree yield its events. -/
theorem yieldsNode (tree : Tree) : YieldsNode tree := by
  induction tree using Tree.induction with
  | null => exact yieldsNode_leaf rfl
  | bool b => exact yieldsNode_leaf rfl
  | integer n => exact yieldsNode_leaf rfl
  | float x => exact yieldsNode_leaf rfl
  | string s => exact yieldsNode_leaf rfl
  | sequence items ih =>
    cases items with
    | nil => exact yieldsNode_emptySequence
    | cons item items => exact yieldsNode_sequence ih (List.cons_ne_nil item items)
  | mapping items ih =>
    cases items with
    | nil => exact yieldsNode_emptyMapping
    | cons entry items => exact yieldsNode_mapping ih (List.cons_ne_nil entry items)

end Yaml.Grammar

/-! ### Documents -/

namespace Yaml.DocumentEvents

open Grammar

/-- The events of a stream that holds the tokens of a tree. -/
theorem ofTokens_tree {lexemes : List Lexeme} {tree : Tree}
    (h : lexemes.map (·.token) = tree.tokens .mark ++ [.streamEnd]) :
    ∃ events, DocumentEvents.ofTokens ⟨lexemes, none⟩ = ⟨events, none, false⟩ ∧
      events.map (·.event) = tree.events := by
  obtain ⟨lexemes, last, rfl, hlexemes, hlast⟩ := List.map_eq_append_iff.mp h
  obtain ⟨⟨_, start, stop⟩, last, rfl, rfl, hnil⟩ := List.map_eq_cons_iff.mp hlast
  obtain rfl := List.map_eq_nil_iff.mp hnil
  have hnode := yieldsNode tree false [⟨.streamEnd, start, stop⟩] TagHandles.standard [] hlexemes
    fun h => nomatch h
  obtain ⟨token, more, htokens, hbegins⟩ := head_tokens tree .mark
  replace hbegins := hbegins.resolve_right fun h => nomatch h.1
  obtain ⟨first, later, rfl, rfl, -⟩ := List.map_eq_cons_iff.mp (hlexemes.trans htokens)
  have hmove : move TagHandles.standard .blockNode [] first
      (later ++ [⟨.streamEnd, start, stop⟩]) = node true false TagHandles.standard []
        (first :: later ++ [⟨.streamEnd, start, stop⟩]) := rfl
  have hyields := Yields.of_outcome hnode hmove
  have hlength := hyields.length_le
  obtain ⟨events, hrun, htold⟩ := hyields.run_eq (Nat.le_trans
    (Nat.le_of_add_right_le (Nat.le_of_add_right_le hlength))
      (Nat.add_le_add_left (Nat.zero_le 4) _))
  refine ⟨events, ?_, htold⟩
  have hcontent : DocumentEvents.content TagHandles.standard .blockNode
      (first :: later ++ [⟨.streamEnd, start, stop⟩]) none = ⟨events, none, false⟩ := by
    rw [DocumentEvents.content, List.cons_append, hrun]
    rfl
  obtain ⟨token, place, behind⟩ := first
  cases token with
  | scalar | sequenceOpen | mappingOpen | blockSequence | blockMapping => exact hcontent
  | _ => nomatch hbegins

end Yaml.DocumentEvents

end CollectorTemplate
