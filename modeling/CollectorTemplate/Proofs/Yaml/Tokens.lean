/-
The tokens of a written document.

What is written for a tree is told as the tokens of the tree: the openings and ends of its
collections, their indicators, and its scalars.

* `Tree.tokens` : the tokens of a tree;
* `Lexing.Arrives` : tokens are told on the way to a place;
* `Lexing.tells_items`, `Lexing.tells_entries` : the text of items and of entries;
* `Lexing.tellsNode` : the text of a node, by induction on the tree.
-/
import CollectorTemplate.Proofs.Tree
import CollectorTemplate.Proofs.Yaml.Scalar.Leaf

namespace CollectorTemplate

open Yaml Scalar

/-! ### Tokens of trees -/

namespace Tree

/-- How the value under a key is led in: a key that is not simple stands on lines of its own. -/
def leadOf (key : String) : Lead := if isSimpleKey key.toList then .key else .mark

mutual

/-- The tokens of a node.  A sequence in the column of its key has neither opening nor end. -/
def tokens (lead : Lead) : Tree → List Token
  | .null => [.scalar .plain "null".toList]
  | .bool b => [.scalar .plain (toString b).toList]
  | .integer n => [.scalar .plain (toString n).toList]
  | .float x => [.scalar .plain (number.render x).toList]
  | .string s => [.scalar (styleOf s.toList) s.toList]
  | .sequence [] => [.sequenceOpen, .sequenceClose]
  | .sequence (item :: rest) =>
    match lead with
    | .key => itemTokens (item :: rest)
    | .mark => .blockSequence :: itemTokens (item :: rest) ++ [.blockEnd]
  | .mapping [] => [.mappingOpen, .mappingClose]
  | .mapping (entry :: rest) => .blockMapping :: entryTokens (entry :: rest) ++ [.blockEnd]

def itemTokens : List Tree → List Token
  | [] => []
  | item :: rest => .blockEntry :: tokens .mark item ++ itemTokens rest

def entryTokens : List (String × Tree) → List Token
  | [] => []
  | (key, value) :: rest =>
    .key :: .scalar (styleOf key.toList) key.toList :: .value :: tokens (leadOf key) value ++
      entryTokens rest

end

theorem tokens_leaf {tree : Tree} {style : Style} {text : List Char}
    (h : leaf? tree = some (style, text)) (lead : Lead) :
    tokens lead tree = [.scalar style text] := by
  cases tree with
  | sequence | mapping => nomatch h
  | _ => obtain ⟨rfl, rfl⟩ := Prod.mk.inj (Option.some.inj h); rfl

end Tree

namespace Yaml

theorem nodeLines_leaf {tree : Tree} {style : Style} {text : List Char}
    (h : leaf? tree = some (style, text)) (indent : Nat) (lead : Lead) :
    nodeLines indent lead tree = ' ' :: scalarLines (indent + indentation) style text := by
  cases tree with
  | sequence | mapping => nomatch h
  | _ => obtain ⟨rfl, rfl⟩ := Prod.mk.inj (Option.some.inj h); rfl

namespace Lexing

open Relation

variable {s t r : Lexing} {lexemes : List Lexeme} {indent : Int} {indents : List Int}
  {keyAllowed : Bool} {mark : Mark} {text rest tail : List Char} {k column : Nat}
    {told more : List Token}

/-! ### Telling tokens -/

/-- Tokens are told up to column `k`, where `rest` is next and the open collections are those at
`indent` and `indents`. -/
def Arrives (s : Lexing) (rest : List Char) (k : Nat) (lexemes : List Lexeme) (indent : Int)
    (indents : List Int) (told : List Token) : Prop :=
  ∃ t later mark, Run s t ∧ Reaches t (resting ⟨rest, mark⟩ (later ++ lexemes) indent indents true)
    ∧
    mark.column = k ∧ later.reverse.map (·.token) = told

namespace Arrives

theorem refl (h : Reaches s (resting ⟨rest, mark⟩ lexemes indent indents true)) :
    Arrives s rest mark.column lexemes indent indents [] :=
  ⟨s, [], mark, .refl, h, rfl, rfl⟩

/-- A step comes first. -/
theorem head (hended : s.ended = false) (hstep : s.step = .ok t)
    (h : Arrives t rest k lexemes indent indents told) :
    Arrives s rest k lexemes indent indents told := by
  obtain ⟨u, later, mark, hrun, hreach, hk, htold⟩ := h
  exact ⟨u, later, mark, .head ⟨hended, hstep⟩ hrun, hreach, hk, htold⟩

/-- Tokens that were there already count as told. -/
theorem tell (more : List Lexeme) (h : Arrives s rest k (more ++ lexemes) indent indents told) :
    Arrives s rest k lexemes indent indents (more.reverse.map (·.token) ++ told) := by
  obtain ⟨u, later, mark, hrun, hreach, hk, htold⟩ := h
  rw [← List.append_assoc] at hreach
  exact ⟨u, later ++ more, mark, hrun, hreach, hk, by simp [← htold]⟩

/-- Tokens are told up to one place, and from there up to another. -/
theorem trans {rest' : List Char} {k' : Nat} {indent' : Int} {indents' : List Int}
    {told' : List Token} (h : Arrives s rest k lexemes indent indents told)
    (h' : ∀ t mark lexemes, mark.column = k →
      Reaches t (resting ⟨rest, mark⟩ lexemes indent indents true) →
        Arrives t rest' k' lexemes indent' indents' told') :
    Arrives s rest' k' lexemes indent' indents' (told ++ told') := by
  obtain ⟨t, later, mark, hrun, hreach, hk, htold⟩ := h
  obtain ⟨u, later', mark', hrun', hreach', hk', htold'⟩ := (h' t mark _ hk hreach).tell later
  exact ⟨u, later', mark', hrun.trans hrun', hreach', hk', htold'.trans (by rw [htold])⟩

/-- A collection ends where tokens are less indented than it. -/
theorem close (h : Arrives s rest k lexemes column (indent :: indents) told) (hk : k < column) :
    Arrives s rest k lexemes indent indents (told ++ [.blockEnd]) := by
  obtain ⟨t, later, mark, hrun, hreach, hmark, htold⟩ := h
  refine ⟨t, ⟨.blockEnd, mark, mark⟩ :: later, mark, hrun, hreach.close ?_, hmark, ?_⟩
  · rw [hmark]
    exact Int.ofNat_lt.mpr hk
  · simp [← htold]

end Arrives

/-! ### Scalars and collections without content -/

/-- The next token stands behind as many spaces as there are on its line. -/
theorem column_scalarLines {style : Style} (hfits : Fits style text) (indent k : Nat)
    (mark : Mark) : (mark.across (scalarLines indent style text ++ spaces k)).column = k := by
  have hcolumn (lines : List Char) {b : Char} (hb : isBreak b = true) :
      (mark.across (lines ++ [b] ++ spaces k)).column = k := by
    rw [Mark.across_append, Mark.across_append, Mark.column_across fun c hc => by
      rw [List.eq_of_mem_replicate hc]
      rfl]
    rw [Mark.across_break hb, spaces, List.length_replicate]
    exact Nat.zero_add k
  cases hend : endsLine style text with
  | false =>
    rw [scalarLines, hend]
    exact hcolumn _ rfl
  | true =>
    cases style with
    | literal =>
      obtain ⟨init, b, rfl⟩ : ∃ init b, text = init ++ [b] :=
        ⟨_, _, (List.dropLast_concat_getLast hfits.2).symm⟩
      have hb : isBreak b = true := by simpa [endsLine] using hend
      have hline (fresh : Bool) : blockLines indent fresh [b] = [b] := by simp [blockLines, hb]
      have hlines : scalarLines indent .literal (init ++ [b]) =
          '|' :: blockHints (init ++ [b]) ++ '\n' :: blockLines indent true init ++ [b] := by
        rw [scalarLines, hend, written, Block.blockLines_append, hline]
        simp
      rw [hlines]
      exact hcolumn _ hb
    | folded => exact hfits.elim
    | plain | singleQuoted | doubleQuoted => cases hend

theorem tells_scalar {style : Style} (hfits : Fits style text) (hk : k ≤ column)
    (hrest : Begins rest) (hmark : column < mark.column)
    (hreach : Reaches s (resting
      ⟨scalarLines (column + indentation) style text ++ (spaces k ++ rest), mark⟩ lexemes column
      indents keyAllowed)) :
    Arrives s rest k lexemes column indents [.scalar style text] := by
  have hindent : (column : Int) < mark.column := Int.ofNat_lt.mpr hmark
  obtain ⟨t, stop, htake, ht⟩ := reaches_scalar _ _ hfits (by omega) hindent hk (.inl (by omega))
    hrest
  have hstep := (hreach.step_eq (Int.le_of_lt hindent)).trans htake
  refine .head hreach.1 hstep ?_
  have hcolumn := column_scalarLines hfits (column + indentation) k mark
  exact (Arrives.tell [⟨.scalar style text, mark, stop⟩] (hcolumn ▸ Arrives.refl ht))

/-- The brackets of a flow collection and their tokens. -/
def AreBrackets (x y : Char) (opens closes : Token) : Prop :=
  x = '{' ∧ y = '}' ∧ opens = .mappingOpen ∧ closes = .mappingClose ∨
    x = '[' ∧ y = ']' ∧ opens = .sequenceOpen ∧ closes = .sequenceClose

variable {x y : Char} {opens closes : Token}

theorem openFlow_eq (token : Token) (hsave : s.savePending = .ok t) (hflow : t.inFlow = false)
    (hrequired : t.pending.filter (·.required) = none) :
    s.openFlow token = .ok { t.indicator token 1 with
      pending := none, outer := t.pending :: t.outer, demanded := none, keyAllowed := true } := by
  rw [openFlow, hsave, ok_bind]
  simp only [hflow, hrequired, Bool.false_eq_true, if_false]
  rfl

/-- The opening of a flow collection, which remembers what key may have begun around it. -/
theorem take_opening (h : AreBrackets x y opens closes) (hmark : indent < mark.column) :
    (resting ⟨x :: tail, mark⟩ lexemes indent indents keyAllowed).take =
      .ok { resting ⟨tail, mark.next x⟩ (⟨opens, mark, mark.next x⟩ :: lexemes) indent indents true
        with outer := [keyHere lexemes indent keyAllowed mark] } := by
  have hrequired : (keyHere lexemes indent keyAllowed mark).filter (·.required) = none := by
    refine Option.filter_eq_none_iff.mpr fun key hkey => ?_
    simp [(keyHere_spec _ _ hmark key hkey).1]
  have hopen (x : Char) := openFlow_eq (s := resting ⟨x :: tail, mark⟩ lexemes indent indents
    keyAllowed) opens (savePending_resting _) rfl hrequired
  rcases h with ⟨rfl, rfl, rfl, rfl⟩ | ⟨rfl, rfl, rfl, rfl⟩
  · have htoken : (resting ⟨'{' :: tail, mark⟩ lexemes indent indents keyAllowed).token '{' tail =
        (resting ⟨'{' :: tail, mark⟩ lexemes indent indents keyAllowed).openFlow .mappingOpen := by
      simp [token, resting, Cursor.atDocumentMark, isDocumentMark]
    change token _ _ _ >>= dropStale = _
    rw [htoken, hopen]
    rfl
  · have htoken : (resting ⟨'[' :: tail, mark⟩ lexemes indent indents keyAllowed).token '[' tail =
        (resting ⟨'[' :: tail, mark⟩ lexemes indent indents keyAllowed).openFlow .sequenceOpen := by
      simp [token, resting, Cursor.atDocumentMark, isDocumentMark]
    change token _ _ _ >>= dropStale = _
    rw [htoken, hopen]
    rfl

/-- The end of a flow collection without content. -/
theorem step_closing {pending : Option PendingKey} (h : AreBrackets x y opens closes) :
    step { resting ⟨y :: tail, mark⟩ lexemes indent indents true with outer := [pending] } =
      dropStale { resting ⟨tail, mark.next y⟩ (⟨closes, mark, mark.next y⟩ :: lexemes) indent
        indents false with pending := pending } := by
  have hbegins : Begins (y :: tail) := by
    intro c hc
    obtain rfl : y = c := Option.some.inj hc
    rcases h with ⟨-, rfl, -⟩ | ⟨-, rfl, -⟩
    · exact ⟨rfl, by decide, by decide⟩
    · exact ⟨rfl, by decide, by decide⟩
  have hprepare : prepare { resting ⟨y :: tail, mark⟩ lexemes indent indents true with
      outer := [pending] } = .ok { resting ⟨y :: tail, mark⟩ lexemes indent indents true with
      outer := [pending] } := by
    rw [prepare, skipSpace_spaces (k := 0) rfl hbegins]
    rfl
  rw [step_of_prepare hprepare]
  rcases h with ⟨rfl, rfl, rfl, rfl⟩ | ⟨rfl, rfl, rfl, rfl⟩
  · have htoken : token { resting ⟨'}' :: tail, mark⟩ lexemes indent indents true with
        outer := [pending] } '}' tail =
        closeFlow { resting ⟨'}' :: tail, mark⟩ lexemes indent indents true with
          outer := [pending] } .mappingClose := by
      simp [token, resting, Cursor.atDocumentMark, isDocumentMark]
    change token _ _ _ >>= dropStale = _
    rw [htoken]
    rfl
  · have htoken : token { resting ⟨']' :: tail, mark⟩ lexemes indent indents true with
        outer := [pending] } ']' tail =
        closeFlow { resting ⟨']' :: tail, mark⟩ lexemes indent indents true with
          outer := [pending] } .sequenceClose := by
      simp [token, resting, Cursor.atDocumentMark, isDocumentMark]
    change token _ _ _ >>= dropStale = _
    rw [htoken]
    rfl

/-- A collection without content is its two brackets. -/
theorem tells_empty (h : AreBrackets x y opens closes) (hrest : Begins rest)
    (hmark : indent < mark.column)
    (hreach : Reaches s (resting ⟨x :: y :: '\n' :: (spaces k ++ rest), mark⟩ lexemes indent indents
      keyAllowed)) :
    Arrives s rest k lexemes indent indents [opens, closes] := by
  have hstep := (hreach.step_eq (Int.le_of_lt hmark)).trans (take_opening h hmark)
  obtain ⟨t, hdrop, ht⟩ := dropStale_reaches_line ((mark.next x).next y) _ _ _ _ k
    (fun key hkey => by
      obtain ⟨hrequired, hplace⟩ := keyHere_spec _ _ hmark key hkey
      exact ⟨hrequired, hplace ▸ Nat.le_refl _⟩) hrest
  refine .head hreach.1 hstep (.head rfl ((step_closing h).trans hdrop) ?_)
  have hk := Mark.column_spaces ((mark.next x).next y) k
  exact .tell [⟨closes, mark.next x, (mark.next x).next y⟩, ⟨opens, mark, mark.next x⟩]
    (hk ▸ Arrives.refl ht)

/-! ### Nodes -/

/-- What is written for a node behind its lead, in a collection at `column`, is told as its
tokens. -/
def TellsNode (tree : Tree) : Prop :=
  ∀ (lead : Lead) {column k : Nat} {rest : List Char} (mark : Mark) (lexemes : List Lexeme)
    (indents : List Int) (keyAllowed : Bool), k ≤ column → Begins rest → column < mark.column →
    (lead = .mark → mark.column = column + 1 ∧ keyAllowed = true) →
    Arrives (resting ⟨nodeLines column lead tree ++ (spaces k ++ rest), mark⟩ lexemes column indents
      keyAllowed) rest k lexemes column indents (tree.tokens lead)

theorem tellsNode_leaf {tree : Tree} {style : Style} (h : leaf? tree = some (style, text)) :
    TellsNode tree := by
  intro lead column k rest mark lexemes indents keyAllowed hk hrest hmark _
  have hfits := fits_of_leaf? h
  have hbegins : Begins (scalarLines (column + indentation) style text ++ (spaces k ++ rest)) := by
    rw [scalarLines, List.append_assoc]
    exact begins_written hfits _ _
  rw [nodeLines_leaf h, Tree.tokens_leaf h]
  have hspace := reaches_spaces mark lexemes column indents keyAllowed 1 hbegins
  exact tells_scalar hfits hk hrest (Nat.lt_succ_of_lt hmark) hspace

theorem tellsNode_empty {tree : Tree} (h : AreBrackets x y opens closes)
    (hlines : ∀ indent lead, nodeLines indent lead tree = [' ', x, y, '\n'])
    (htokens : ∀ lead, tree.tokens lead = [opens, closes]) : TellsNode tree := by
  intro lead column k rest mark lexemes indents keyAllowed hk hrest hmark _
  have hbegins : Begins (x :: y :: '\n' :: (spaces k ++ rest)) := by
    intro c hc
    obtain rfl : x = c := Option.some.inj hc
    rcases h with ⟨rfl, -⟩ | ⟨rfl, -⟩
    · exact ⟨rfl, by decide, by decide⟩
    · exact ⟨rfl, by decide, by decide⟩
  rw [hlines, htokens]
  have hspace := reaches_spaces mark lexemes column indents keyAllowed 1 hbegins
  exact tells_empty h hrest (Int.ofNat_lt.mpr (Nat.lt_succ_of_lt hmark)) hspace

/-! ### Items -/

theorem itemLines_cons (column : Nat) (first : List Char) (item : Tree) (rest : List Tree) :
    itemLines column first (item :: rest) = first ++ itemLines column [] (item :: rest) := by
  simp [itemLines]

theorem gapAhead_nodeLines (column : Nat) (lead : Lead) (tree : Tree) (tail : List Char) :
    gapAhead (nodeLines column lead tree ++ tail) = true := by
  cases tree with
  | sequence items => cases items <;> cases lead <;> rfl
  | mapping entries => rcases entries with _ | ⟨⟨key, value⟩, rest⟩ <;> cases lead <;> rfl
  | _ => rfl

theorem reverse_opening (token : Token) :
    ((opening indent mark token).map (·.token)).reverse =
      (opening indent mark token).map (·.token) := by
  unfold opening
  split <;> rfl

theorem opening_self (hcolumn : mark.column = column) (token : Token) :
    opening column mark token = [] :=
  if_neg (by rw [hcolumn]; exact Int.lt_irrefl _)

theorem around_self (hcolumn : mark.column = column) (indents : List Int) :
    around column mark indents = indents :=
  if_neg (by rw [hcolumn]; exact Int.lt_irrefl _)

/-- An item and what leads it in. -/
theorem tells_item {item : Tree} (hitem : TellsNode item) (hk : k ≤ mark.column)
    (hrest : Begins rest)
    (hindent : indent ≤ mark.column)
    (hreach : Reaches s (resting
      ⟨'-' :: nodeLines mark.column .mark item ++ (spaces k ++ rest), mark⟩ lexemes indent indents
      true)) :
    Arrives s rest k lexemes mark.column (around indent mark indents)
      ((opening indent mark .blockSequence).map (·.token) ++ .blockEntry :: item.tokens .mark) := by
  have hstep := (hreach.step_eq hindent).trans
    (take_dash (gapAhead_nodeLines mark.column .mark item _) hindent)
  refine .head hreach.1 hstep ?_
  have harrives := hitem .mark (mark.next '-')
    (⟨.blockEntry, mark, mark.next '-'⟩ ::
      (opening indent mark .blockSequence ++ lexemes))
    (around indent mark indents) true hk hrest (Nat.lt_succ_self mark.column)
    fun _ => ⟨rfl, rfl⟩
  have htell := Arrives.tell (⟨.blockEntry, mark, mark.next '-'⟩ :: opening indent mark
    .blockSequence)
    harrives
  simpa [reverse_opening] using htell

/-- The items of a sequence, whose opening may be told here. -/
theorem tells_items {items : List Tree} (hitems : ∀ item ∈ items, TellsNode item)
    (hne : items ≠ []) (hcolumn : mark.column = column) (hk : k ≤ column) (hrest : Begins rest)
    (hindent : indent ≤ column)
    (hreach : Reaches s (resting ⟨itemLines column [] items ++ (spaces k ++ rest), mark⟩ lexemes
      indent indents true)) :
    Arrives s rest k lexemes column (around indent mark indents)
      ((opening indent mark .blockSequence).map (·.token) ++ Tree.itemTokens items) := by
  subst hcolumn
  induction items generalizing s indent indents mark lexemes with
  | nil => exact absurd rfl hne
  | cons item items ih =>
    obtain ⟨hitem, hitems⟩ := List.forall_mem_cons.mp hitems
    cases items with
    | nil =>
      have harrives := tells_item hitem hk hrest hindent (by simpa [itemLines] using hreach)
      simpa [Tree.itemTokens] using harrives
    | cons next items =>
      have hbegins : Begins (itemLines mark.column [] (next :: items) ++ (spaces k ++ rest)) := by
        intro c hc
        obtain rfl : '-' = c := Option.some.inj hc
        exact ⟨rfl, by decide, by decide⟩
      have harrives := tells_item
        hitem (Nat.le_refl _) hbegins hindent (by
          rw [itemLines, itemLines_cons mark.column (spaces mark.column)] at hreach
          simpa using hreach)
      have hwhole := harrives.trans fun t place lexemes hplace ht => by
        have := @ih t lexemes mark.column (around indent mark indents) place hitems
          (List.cons_ne_nil next items) (hplace ▸ hk) (Int.le_of_eq (by rw [hplace]))
            (hplace ▸ ht)
        rw [← hplace, opening_self rfl, around_self rfl] at this
        exact hplace ▸ this
      simpa [Tree.itemTokens] using hwhole

/-! ### Entries -/

theorem entryLines_cons (column : Nat) (first : List Char) (entry : String × Tree)
    (rest : List (String × Tree)) :
    entryLines column first (entry :: rest) = first ++ entryLines column [] (entry :: rest) := by
  obtain ⟨key, value⟩ := entry
  simp [entryLines]

/-- An entry whose key stands in front of its colon. -/
theorem tells_simpleEntry {key : String} {value : Tree} (hvalue : TellsNode value)
    (hkey : isSimpleKey key.toList = true) (hk : k ≤ mark.column) (hrest : Begins rest)
    (hindent : indent ≤ mark.column)
    (hreach : Reaches s (resting
      ⟨written mark.column (styleOf key.toList) key.toList ++
        ':' :: nodeLines mark.column .key value ++ (spaces k ++ rest), mark⟩ lexemes indent indents
      true)) :
    Arrives s rest k lexemes mark.column (around indent mark indents)
      ((opening indent mark .blockMapping).map (·.token) ++
        .key :: .scalar (styleOf key.toList) key.toList :: .value :: value.tokens .key) := by
  obtain ⟨t, stop, htake, hended, hstop, hstep⟩ := take_key hkey
    (gapAhead_nodeLines mark.column .key value (spaces k ++ rest)) hindent
  have hread := (hreach.step_eq hindent).trans (by simpa using htake)
  refine .head hreach.1 hread (.head hended hstep ?_)
  have harrives := hvalue (k := k) .key (stop.next ':')
    (⟨.value, stop, stop.next ':'⟩ ::
      ⟨.scalar (styleOf key.toList) key.toList, mark, stop⟩ ::
      ⟨.key, mark, mark⟩ :: (opening indent mark .blockMapping ++ lexemes))
    (around indent mark indents) false hk hrest (Nat.lt_succ_of_le hstop) fun h => nomatch h
  have htell := Arrives.tell (⟨.value, stop, stop.next ':'⟩ ::
    ⟨.scalar (styleOf key.toList) key.toList, mark, stop⟩ :: ⟨.key, mark, mark⟩ ::
      opening indent mark .blockMapping) harrives
  simpa [reverse_opening] using htell

/-- A value whose colon begins a line. -/
theorem tells_value {value : Tree} (hvalue : TellsNode value) (hk : k ≤ column)
    (hrest : Begins rest) (hcolumn : mark.column = column)
    (hreach : Reaches s (resting ⟨':' :: nodeLines column .mark value ++ (spaces k ++ rest), mark⟩
      lexemes column indents true)) :
    Arrives s rest k lexemes column indents (.value :: value.tokens .mark) := by
  have htake := take_colon lexemes indents
    (gapAhead_nodeLines column .mark value (spaces k ++ rest)) hcolumn
  have hstep := (hreach.step_eq (Int.ofNat_le.mpr (Nat.le_of_eq hcolumn.symm))).trans htake
  have harrives := hvalue .mark (mark.next ':')
    (⟨.value, mark, mark.next ':'⟩ :: lexemes) indents true hk hrest
    (by rw [← hcolumn]; exact Nat.lt_succ_self _) fun _ => ⟨congrArg (· + 1) hcolumn, rfl⟩
  exact .head hreach.1 hstep (Arrives.tell [⟨.value, mark, mark.next ':'⟩] harrives)

/-- An entry whose key stands on lines of its own. -/
theorem tells_complexEntry {key : String} {value : Tree} (hvalue : TellsNode value)
    (hk : k ≤ mark.column) (hrest : Begins rest) (hindent : indent ≤ mark.column)
    (hreach : Reaches s (resting
      ⟨'?' :: ' ' :: Scalar.lines (mark.column + indentation) key.toList ++
        spaces mark.column ++ ':' :: nodeLines mark.column .mark value ++ (spaces k ++ rest), mark⟩
      lexemes indent indents true)) :
    Arrives s rest k lexemes mark.column (around indent mark indents)
      ((opening indent mark .blockMapping).map (·.token) ++
        .key :: .scalar (styleOf key.toList) key.toList :: .value :: value.tokens .mark) := by
  have hfits := fits_styleOf key.toList
  have hread := (hreach.step_eq hindent).trans (take_question rfl hindent)
  have hcolon : Begins (':' :: nodeLines mark.column .mark value ++ (spaces k ++ rest)) := by
    intro c hc
    obtain rfl : ':' = c := Option.some.inj hc
    exact ⟨rfl, by decide, by decide⟩
  have hbegins : Begins (scalarLines (mark.column + indentation) (styleOf key.toList) key.toList ++
      (spaces mark.column ++ (':' :: nodeLines mark.column .mark value ++
        (spaces k ++ rest)))) := by
    rw [scalarLines, List.append_assoc]
    exact begins_written hfits _ _
  have hspace := reaches_spaces (mark.next '?')
    (⟨.key, mark, mark.next '?'⟩ :: (opening indent mark .blockMapping ++ lexemes)) mark.column
      (around indent mark indents) true 1 hbegins
  have hkey := tells_scalar hfits (Nat.le_refl _) hcolon
    (Nat.lt_succ_of_lt (Nat.lt_succ_self mark.column)) hspace
  have hentry := hkey.trans fun t place lexemes' hplace ht => tells_value hvalue hk hrest hplace ht
  have htell := Arrives.tell (⟨.key, mark, mark.next '?'⟩ :: opening indent mark .blockMapping)
    hentry
  have htext : spaces 1 ++ (scalarLines (mark.column + indentation) (styleOf key.toList) key.toList
    ++
      (spaces mark.column ++ (':' :: nodeLines mark.column .mark value ++ (spaces k ++ rest)))) =
      ' ' :: Scalar.lines (mark.column + indentation) key.toList ++ spaces mark.column ++
        ':' :: nodeLines mark.column .mark value ++ (spaces k ++ rest) := by
    simp [lines_eq, spaces]
  rw [htext] at htell
  refine .head hreach.1 hread ?_
  simpa [reverse_opening] using htell

/-- What is written for an entry, behind the indentation of its line. -/
def entryText (column : Nat) (key : String) (value : Tree) : List Char :=
  if isSimpleKey key.toList then
    written column (styleOf key.toList) key.toList ++ ':' :: nodeLines column .key value
  else
    '?' :: ' ' :: Scalar.lines (column + indentation) key.toList ++ spaces column ++
      ':' :: nodeLines column .mark value

theorem begins_entryText (column : Nat) (key : String) (value : Tree) (tail : List Char) :
    Begins (entryText column key value ++ tail) := by
  unfold entryText
  split
  · rw [List.append_assoc]
    exact begins_written (fits_styleOf _) _ _
  · intro c hc
    obtain rfl : '?' = c := Option.some.inj hc
    exact ⟨rfl, by decide, by decide⟩

theorem tells_entry {key : String} {value : Tree} (hvalue : TellsNode value) (hk : k ≤ mark.column)
    (hrest : Begins rest) (hindent : indent ≤ mark.column)
    (hreach : Reaches s (resting ⟨entryText mark.column key value ++ (spaces k ++ rest), mark⟩
      lexemes indent indents true)) :
    Arrives s rest k lexemes mark.column (around indent mark indents)
      ((opening indent mark .blockMapping).map (·.token) ++
        .key :: .scalar (styleOf key.toList) key.toList :: .value ::
          value.tokens (Tree.leadOf key)) := by
  unfold entryText at hreach
  unfold Tree.leadOf
  split at hreach
  · rename_i hkey
    rw [if_pos hkey]
    exact tells_simpleEntry hvalue hkey hk hrest hindent hreach
  · rename_i hkey
    rw [if_neg hkey]
    exact tells_complexEntry hvalue hk hrest hindent hreach

theorem entryLines_eq (column : Nat) (first : List Char) (key : String) (value : Tree)
    (rest : List (String × Tree)) :
    entryLines column first ((key, value) :: rest) =
      first ++ entryText column key value ++ entryLines column (spaces column) rest := by
  rw [entryLines, entryText]

/-- The entries of a mapping, whose opening may be told here. -/
theorem tells_entries {entries : List (String × Tree)}
    (hentries : ∀ entry ∈ entries, TellsNode entry.2) (hne : entries ≠ [])
    (hcolumn : mark.column = column) (hk : k ≤ column) (hrest : Begins rest)
    (hindent : indent ≤ column)
    (hreach : Reaches s (resting ⟨entryLines column [] entries ++ (spaces k ++ rest), mark⟩
      lexemes indent indents true)) :
    Arrives s rest k lexemes column (around indent mark indents)
      ((opening indent mark .blockMapping).map (·.token) ++ Tree.entryTokens entries) := by
  subst hcolumn
  induction entries generalizing s indent indents mark lexemes with
  | nil => exact absurd rfl hne
  | cons entry entries ih =>
    obtain ⟨key, value⟩ := entry
    obtain ⟨hvalue, hentries⟩ := List.forall_mem_cons.mp hentries
    cases entries with
    | nil =>
      have harrives := tells_entry hvalue hk hrest hindent (by
        rw [entryLines_eq] at hreach
        simpa [entryLines] using hreach)
      simpa [Tree.entryTokens] using harrives
    | cons next entries =>
      have hbegins :
          Begins (entryLines mark.column [] (next :: entries) ++ (spaces k ++ rest)) := by
        rw [entryLines_eq, List.nil_append, List.append_assoc]
        exact begins_entryText _ _ _ _
      have harrives := tells_entry
        hvalue (Nat.le_refl _) hbegins hindent (by
          rw [entryLines_eq, entryLines_cons mark.column (spaces mark.column)] at hreach
          simpa using hreach)
      have hwhole := harrives.trans fun t place lexemes hplace ht => by
        have := @ih t lexemes mark.column (around indent mark indents) place hentries
          (List.cons_ne_nil next entries) (hplace ▸ hk) (Int.le_of_eq (by rw [hplace]))
          (hplace ▸ ht)
        rw [← hplace, opening_self rfl, around_self rfl] at this
        exact hplace ▸ this
      simpa [Tree.entryTokens] using hwhole

/-! ### Nested collections -/

theorem opening_of_lt {token : Token} (h : indent < mark.column) :
    opening indent mark token = [⟨token, mark, mark⟩] := if_pos h

theorem around_of_lt (h : indent < mark.column) : around indent mark indents = indent :: indents :=
  if_pos h

/-- A collection that is indented more deeply than the one around it begins and ends. -/
theorem tells_nested {token : Token} (hk : k ≤ column) (hmark : mark.column = column + indentation)
    (h : Arrives s rest k lexemes (column + indentation : Nat) (around column mark indents)
      ((opening column mark token).map (·.token) ++ told)) :
    Arrives s rest k lexemes column indents (token :: told ++ [.blockEnd]) := by
  have hin : column < mark.column := by
    rw [hmark]
    exact Nat.lt_add_of_pos_right (by decide)
  rw [opening_of_lt (Int.ofNat_lt.mpr hin), around_of_lt (Int.ofNat_lt.mpr hin)] at h
  exact h.close (Nat.lt_of_le_of_lt hk (hmark ▸ hin))

theorem tellsNode_sequence {items : List Tree} (hitems : ∀ item ∈ items, TellsNode item)
    (hne : items ≠ []) : TellsNode (.sequence items) := by
  intro lead column k rest mark lexemes indents keyAllowed hk hrest hmark hlead
  obtain ⟨item, items, rfl⟩ := List.exists_cons_of_ne_nil hne
  have hbegins (column : Nat) :
      Begins (itemLines column [] (item :: items) ++ (spaces k ++ rest)) := by
    intro c hc
    obtain rfl : '-' = c := Option.some.inj hc
    exact ⟨rfl, by decide, by decide⟩
  cases lead with
  | key =>
    -- The items stand in the column of the key, so that nothing is opened.
    have hplace := Mark.column_spaces mark column
    have hreach := reaches_nextLine mark lexemes column indents keyAllowed column (hbegins column)
    have harrives := tells_items hitems hne hplace hk hrest (Int.le_refl _) hreach
    rw [opening_self hplace, around_self hplace] at harrives
    simpa [nodeLines, itemLines_cons column (spaces column), Tree.tokens] using harrives
  | mark =>
    obtain ⟨hcolumn, rfl⟩ := hlead rfl
    have hplace : (mark.across (spaces 1)).column = column + indentation :=
      congrArg (· + 1) hcolumn
    have hreach := reaches_spaces mark lexemes column indents true 1
      (hbegins (column + indentation))
    have harrives := tells_items hitems hne hplace (Nat.le_add_right_of_le hk) hrest
      (Int.ofNat_le.mpr (Nat.le_add_right _ _)) hreach
    have hnested := tells_nested hk hplace harrives
    simpa [nodeLines, itemLines_cons _ [' '], Tree.tokens, spaces] using hnested

theorem tellsNode_mapping {entries : List (String × Tree)}
    (hentries : ∀ entry ∈ entries, TellsNode entry.2) (hne : entries ≠ []) :
    TellsNode (.mapping entries) := by
  intro lead column k rest mark lexemes indents keyAllowed hk hrest hmark hlead
  obtain ⟨⟨key, value⟩, entries, rfl⟩ := List.exists_cons_of_ne_nil hne
  have hbegins : Begins (entryLines (column + indentation) [] ((key, value) :: entries) ++
      (spaces k ++ rest)) := by
    rw [entryLines_eq, List.nil_append, List.append_assoc]
    exact begins_entryText _ _ _ _
  cases lead with
  | key =>
    have hplace := Mark.column_spaces mark (column + indentation)
    have hreach := reaches_nextLine mark lexemes column indents keyAllowed (column + indentation)
      hbegins
    have harrives := tells_entries hentries hne hplace (Nat.le_add_right_of_le hk) hrest
      (Int.ofNat_le.mpr (Nat.le_add_right _ _)) hreach
    have hnested := tells_nested hk hplace harrives
    simpa [nodeLines, entryLines_cons _ (spaces (column + indentation)), Tree.tokens] using hnested
  | mark =>
    obtain ⟨hcolumn, rfl⟩ := hlead rfl
    have hplace : (mark.across (spaces 1)).column = column + indentation :=
      congrArg (· + 1) hcolumn
    have hreach := reaches_spaces mark lexemes column indents true 1 hbegins
    have harrives := tells_entries hentries hne hplace (Nat.le_add_right_of_le hk) hrest
      (Int.ofNat_le.mpr (Nat.le_add_right _ _)) hreach
    have hnested := tells_nested hk hplace harrives
    simpa [nodeLines, entryLines_cons _ [' '], Tree.tokens, spaces] using hnested

/-- What is written for a node is told as its tokens. -/
theorem tellsNode (tree : Tree) : TellsNode tree := by
  induction tree using Tree.induction with
  | null => exact tellsNode_leaf rfl
  | bool b => exact tellsNode_leaf rfl
  | integer n => exact tellsNode_leaf rfl
  | float x => exact tellsNode_leaf rfl
  | string s => exact tellsNode_leaf rfl
  | sequence items ih =>
    cases items with
    | nil => exact tellsNode_empty (.inr ⟨rfl, rfl, rfl, rfl⟩) (fun _ _ => rfl) (fun _ => rfl)
    | cons item items => exact tellsNode_sequence ih (List.cons_ne_nil item items)
  | mapping entries ih =>
    cases entries with
    | nil => exact tellsNode_empty (.inl ⟨rfl, rfl, rfl, rfl⟩) (fun _ _ => rfl) (fun _ => rfl)
    | cons entry entries => exact tellsNode_mapping ih (List.cons_ne_nil entry entries)

end Lexing

end Yaml

end CollectorTemplate
