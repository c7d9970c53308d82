/-
The token stream of a written document.

No written text holds a character that cannot be read, so that the reader comes to its end, and what
it has told then are the tokens of the tree and the end of the text.

* `all_isReadable_write` : the characters of a written document;
* `TokenStream.read_of_run` : a run to the end of a text is what reading it gives;
* `TokenStream.ofString_write` : the token stream of a written document.
-/
import CollectorTemplate.Proofs.Yaml.Tokens

namespace CollectorTemplate.Yaml

open Scalar

/-! ### Characters -/

theorem isReadable_of_isPrintable {c : Char} (h : isPrintable c = true) : isReadable c = true := by
  simp only [isPrintable, Bool.or_eq_true, Bool.and_eq_true, beq_iff_eq, decide_eq_true_eq] at h
  simp only [isReadable, Bool.or_eq_true, Bool.and_eq_true, beq_iff_eq, decide_eq_true_eq]
  omega

theorem all_isReadable_of_isPrintable {text : List Char} (h : text.all isPrintable = true) :
    text.all isReadable = true :=
  List.all_eq_true.mpr fun c hc => isReadable_of_isPrintable (List.all_eq_true.mp h c hc)

theorem all_isReadable_spaces (k : Nat) : (spaces k).all isReadable = true :=
  List.all_eq_true.mpr fun c hc => by
    rw [List.eq_of_mem_replicate hc]
    rfl

theorem all_isReadable_singleLines {text : List Char} (h : text.all isReadable = true)
    (indent : Nat)
    (fresh : Bool) : (singleLines indent fresh text).all isReadable = true := by
  induction text generalizing fresh with
  | nil => cases fresh <;> simp [singleLines, all_isReadable_spaces]
  | cons c text ih =>
    obtain ⟨hc, htext⟩ := Bool.and_eq_true_iff.mp h
    have hquote : isReadable '\'' = true := rfl
    have ih := fun fresh => ih htext fresh
    rw [singleLines]
    split
    · simp [hc, ih]
    · by_cases hc' : c = '\'' <;> cases fresh <;>
        simp [hc', hc, ih, hquote, all_isReadable_spaces]

theorem all_isReadable_blockLines {text : List Char} (h : text.all isReadable = true) (indent : Nat)
    (fresh : Bool) : (blockLines indent fresh text).all isReadable = true := by
  induction text generalizing fresh with
  | nil => rfl
  | cons c text ih =>
    obtain ⟨hc, htext⟩ := Bool.and_eq_true_iff.mp h
    have ih := fun fresh => ih htext fresh
    rw [blockLines]
    split
    · simp [hc, ih]
    · cases fresh <;> simp [hc, ih, all_isReadable_spaces]

theorem all_isReadable_hexDigits (width n : Nat) : (hexDigits width n).all isReadable = true := by
  have hdigit : ∀ d < 16, isReadable (hexDigit d) = true := by decide
  induction width generalizing n with
  | zero => rfl
  | succ width ih => simp [hexDigits, ih, hdigit _ (Nat.mod_lt n (by decide : 0 < 16))]

theorem all_isReadable_doubleChar (c : Char) : (doubleChar c).all isReadable = true := by
  have hescape : isReadable '\\' = true ∧ isReadable 'x' = true ∧ isReadable 'u' = true :=
    ⟨rfl, rfl, rfl⟩
  rcases Quoted.doubleChar_cases c with ⟨letter, h, hc⟩ | ⟨-, hprint, hc⟩ | ⟨-, hc⟩ | ⟨-, -, hc⟩
  · have hletter : isReadable letter = true := by
      unfold escapeLetter? at h
      split at h
      case h_15 => nomatch h
      all_goals
        obtain rfl := Option.some.inj h
        rfl
    simp [hc, hescape, hletter]
  · simp [hc, isReadable_of_isPrintable hprint]
  · simp [hc, hescape, all_isReadable_hexDigits]
  · simp [hc, hescape, all_isReadable_hexDigits]

theorem all_isReadable_scalarLines {style : Style} {text : List Char} (hfits : Fits style text)
    (indent : Nat) : (scalarLines indent style text).all isReadable = true := by
  have hbreak : isReadable '\n' = true := rfl
  have hquotes : isReadable '\'' = true ∧ isReadable '"' = true ∧ isReadable '|' = true :=
    ⟨rfl, rfl, rfl⟩
  have hend : (if endsLine style text then [] else ['\n']).all isReadable = true := by
    split <;> rfl
  rw [scalarLines, List.all_append, hend, Bool.and_true]
  cases style with
  | plain =>
    obtain ⟨hplain, -⟩ := hfits
    simp only [plainHolds, Bool.and_eq_true] at hplain
    exact all_isReadable_of_isPrintable hplain.1.1.1
  | singleQuoted =>
    obtain ⟨hsingle, -⟩ := hfits
    simp only [singleHolds, Bool.and_eq_true] at hsingle
    simp [written, hquotes,
      all_isReadable_singleLines (all_isReadable_of_isPrintable hsingle.1.1) indent false]
  | doubleQuoted =>
    have hchars : (text.flatMap doubleChar).all isReadable = true := by
      rw [List.all_flatMap]
      exact List.all_eq_true.mpr fun c _ => all_isReadable_doubleChar c
    simp [written, hquotes, hchars]
  | folded => exact hfits.elim
  | literal =>
    obtain ⟨hblock, htext⟩ := hfits
    simp only [blockHolds, Bool.and_eq_true] at hblock
    have hhints : (blockHints text).all isReadable = true := by
      rcases Block.blockHints_cases htext with ⟨-, -, -, -, h⟩ | ⟨-, -, -, -, -, -, h⟩ |
        ⟨-, -, -, -, h⟩ <;>
        rw [h, Block.hints] <;> cases Block.isLoose text <;> rfl
    simp [written, hquotes, hhints, hbreak,
      all_isReadable_blockLines (all_isReadable_of_isPrintable hblock.1.1) indent true]

theorem all_isReadable_itemLines {items : List Tree}
    (hitems : ∀ item ∈ items, ∀ indent lead, (nodeLines indent lead item).all isReadable = true)
    (indent : Nat) {first : List Char} (hfirst : first.all isReadable = true) :
    (itemLines indent first items).all isReadable = true := by
  have hdash : isReadable '-' = true := rfl
  induction items generalizing first with
  | nil => rfl
  | cons item items ih =>
    obtain ⟨hitem, hitems⟩ := List.forall_mem_cons.mp hitems
    simp [itemLines, hfirst, hdash, hitem, ih hitems (all_isReadable_spaces indent)]

theorem all_isReadable_entryText (key : String) {value : Tree}
    (hvalue : ∀ indent lead, (nodeLines indent lead value).all isReadable = true) (indent : Nat) :
    (Lexing.entryText indent key value).all isReadable = true := by
  have hmarks : isReadable ':' = true ∧ isReadable '?' = true ∧ isReadable ' ' = true :=
    ⟨rfl, rfl, rfl⟩
  have hfits := fits_styleOf key.toList
  unfold Lexing.entryText
  split
  · have hkey := all_isReadable_scalarLines hfits indent
    rw [scalarLines, List.all_append, Bool.and_eq_true] at hkey
    simp [hkey.1, hmarks, hvalue]
  · simp [lines_eq, all_isReadable_scalarLines hfits, hmarks, hvalue, all_isReadable_spaces]

theorem all_isReadable_entryLines {entries : List (String × Tree)}
    (hentries : ∀ entry ∈ entries, ∀ indent lead,
      (nodeLines indent lead entry.2).all isReadable = true)
    (indent : Nat) {first : List Char} (hfirst : first.all isReadable = true) :
    (entryLines indent first entries).all isReadable = true := by
  induction entries generalizing first with
  | nil => rfl
  | cons entry entries ih =>
    obtain ⟨key, value⟩ := entry
    obtain ⟨hvalue, hentries⟩ := List.forall_mem_cons.mp hentries
    simp [Lexing.entryLines_eq, hfirst, all_isReadable_entryText key hvalue,
      ih hentries (all_isReadable_spaces indent)]

/-- What is written for a node can be read. -/
theorem all_isReadable_nodeLines (tree : Tree) :
    ∀ indent lead, (nodeLines indent lead tree).all isReadable = true := by
  have hspace : isReadable ' ' = true := rfl
  have hbreak : isReadable '\n' = true := rfl
  have hleaf {tree : Tree} {style : Style} {text : List Char} (h : leaf? tree = some (style, text))
      (indent : Nat) (lead : Lead) : (nodeLines indent lead tree).all isReadable = true := by
    simp [nodeLines_leaf h, all_isReadable_scalarLines (fits_of_leaf? h), hspace]
  induction tree using Tree.induction with
  | null => exact hleaf rfl
  | bool b => exact hleaf rfl
  | integer n => exact hleaf rfl
  | float x => exact hleaf rfl
  | string s => exact hleaf rfl
  | sequence items ih =>
    intro indent lead
    cases items with
    | nil => rfl
    | cons item items =>
      have hitems (indent : Nat) {first : List Char} (hfirst : first.all isReadable = true) :=
        all_isReadable_itemLines ih indent hfirst
      cases lead with
      | key => simp [nodeLines, hbreak, hitems indent (all_isReadable_spaces indent)]
      | mark => exact hitems _ rfl
  | mapping entries ih =>
    intro indent lead
    cases entries with
    | nil => rfl
    | cons entry entries =>
      have hentries (indent : Nat) {first : List Char} (hfirst : first.all isReadable = true) :=
        all_isReadable_entryLines ih indent hfirst
      cases lead with
      | key => simp [nodeLines, hbreak, hentries _ (all_isReadable_spaces (indent + indentation))]
      | mark => exact hentries _ rfl

theorem all_isReadable_write (tree : Tree) : (write tree).toList.all isReadable = true := by
  unfold write
  split
  · rw [String.toList_ofList]
    exact all_isReadable_itemLines (fun item _ => all_isReadable_nodeLines item) 0 rfl
  · rw [String.toList_ofList]
    exact all_isReadable_entryLines (fun entry _ => all_isReadable_nodeLines entry.2) 0 rfl
  · rw [String.toList_ofList]
    exact List.all_eq_true.mpr fun c hc =>
      List.all_eq_true.mp (all_isReadable_nodeLines tree 0 .key) c (List.mem_of_mem_drop hc)

theorem Source.ofString_write (tree : Tree) :
    Source.ofString (write tree) = ⟨(write tree).toList, none⟩ :=
  if_pos (all_isReadable_write tree)

/-! ### The end of the text -/

namespace Lexing

variable {s : Lexing} {lexemes : List Lexeme} {mark : Mark}

/-- At the end of the text, in front of what would be a new line, nothing is open. -/
theorem take_end (hmark : mark.column = 0) :
    ∃ t, (resting ⟨[], mark⟩ lexemes (-1) [] true).take = .ok t ∧ t.ended = true ∧
      t.lexemes = ⟨.streamEnd, mark, mark⟩ :: lexemes := by
  obtain ⟨index, offset, line, column⟩ := mark
  obtain rfl : column = 0 := hmark
  exact ⟨_, rfl, rfl, rfl⟩

/-- The end of the text ends the collection of the document. -/
theorem take_end_of_open (hmark : mark.column = 0) :
    (resting ⟨[], mark⟩ lexemes 0 [-1] true).take =
      (resting ⟨[], mark⟩ (⟨.blockEnd, mark, mark⟩ :: lexemes) (-1) [] true).take := by
  obtain ⟨index, offset, line, column⟩ := mark
  obtain rfl : column = 0 := hmark
  rfl

/-- The tokens of a whole text. -/
def TellsText (chars : List Char) (told : List Token) : Prop :=
  ∃ t, Run { cursor := .start chars } t ∧ t.ended = true ∧ t.lexemes.reverse.map (·.token) = told

theorem tellsText_of_arrives {chars : List Char} {told : List Token}
    (h : Arrives { cursor := .start chars } [] 0 [] (-1) [] told) :
    TellsText chars (told ++ [.streamEnd]) := by
  obtain ⟨t, later, mark, hrun, hreach, hmark, rfl⟩ := h
  obtain ⟨u, htake, hended, hlexemes⟩ := take_end hmark
  have hstep := (hreach.step_eq (show (-1 : Int) ≤ mark.column by rw [hmark]; decide)).trans htake
  exact ⟨u, hrun.tail ⟨hreach.1, hstep⟩, hended, by simp [hlexemes]⟩

theorem tellsText_of_open {chars : List Char} {told : List Token}
    (h : Arrives { cursor := .start chars } [] 0 [] 0 [-1] told) :
    TellsText chars (told ++ [.blockEnd, .streamEnd]) := by
  obtain ⟨t, later, mark, hrun, hreach, hmark, rfl⟩ := h
  obtain ⟨u, htake, hended, hlexemes⟩ :=
    take_end hmark
  have hstep := (hreach.step_eq (show (0 : Int) ≤ mark.column by rw [hmark]; decide)).trans
    ((take_end_of_open hmark).trans htake)
  exact ⟨u, hrun.tail ⟨hreach.1, hstep⟩, hended, by simp [hlexemes]⟩

/-- A text that begins a token is at its first token from the start. -/
theorem reaches_start {chars : List Char} (h : Begins chars) :
    Reaches { cursor := .start chars }
      (resting ⟨chars ++ (spaces 0 ++ []), {}⟩ [] (-1) [] true) := by
  have hstart := reaches_spaces {} [] (-1) [] true 0 h
  simpa [spaces, resting, Cursor.start, Mark.across_nil] using hstart

theorem tellsText_leaf {tree : Tree} {style : Style} {text : List Char}
    (h : leaf? tree = some (style, text)) :
    TellsText ((nodeLines 0 .key tree).drop 1) (tree.tokens .mark ++ [.streamEnd]) := by
  have hfits := fits_of_leaf? h
  have hbegins : Begins (scalarLines (0 + indentation) style text) := begins_written hfits _ _
  rw [nodeLines_leaf h, Tree.tokens_leaf h, List.drop_succ_cons, List.drop_zero]
  have hnil : Begins [] := fun _ hc => nomatch hc
  have hreach := reaches_start hbegins
  generalize hstart : ({} : Mark) = start at hreach
  obtain ⟨t, stop, htake, ht⟩ := reaches_scalar start 0 hfits
    (show (max (-1 : Int) 0).toNat = 0 from rfl)
    (by rw [← hstart]; decide) (Nat.le_refl 0) (.inr rfl) hnil
  have hstep := (hreach.step_eq (show (-1 : Int) ≤ start.column by rw [← hstart]; decide)).trans
    htake
  have hcolumn := column_scalarLines hfits (0 + indentation) 0 start
  exact tellsText_of_arrives (.head rfl hstep
    (Arrives.tell [⟨.scalar style text, start, stop⟩] (hcolumn ▸ Arrives.refl ht)))

theorem tellsText_empty {x y : Char} {opens closes : Token} (h : AreBrackets x y opens closes) :
    TellsText [x, y, '\n'] [opens, closes, .streamEnd] := by
  have hbegins : Begins [x, y, '\n'] := by
    intro c hc
    obtain rfl : x = c := Option.some.inj hc
    rcases h with ⟨rfl, -⟩ | ⟨rfl, -⟩
    · exact ⟨rfl, by decide, by decide⟩
    · exact ⟨rfl, by decide, by decide⟩
  have hnil : Begins [] := fun _ hc => nomatch hc
  exact tellsText_of_arrives (tells_empty (k := 0) h hnil (by decide) (reaches_start hbegins))

/-- The tokens of a written document. -/
theorem tellsText_write (tree : Tree) :
    TellsText (write tree).toList (tree.tokens .mark ++ [.streamEnd]) := by
  have hnil : Begins [] := fun _ hc => nomatch hc
  unfold write
  split
  · rename_i item items
    rw [String.toList_ofList]
    have hbegins : Begins (itemLines 0 [] (item :: items)) := by
      intro c hc
      obtain rfl : '-' = c := Option.some.inj hc
      exact ⟨rfl, by decide, by decide⟩
    have harrives := tells_items (k := 0) (fun item _ => tellsNode item)
      (List.cons_ne_nil item items)
      rfl (Nat.le_refl 0) hnil (by decide) (reaches_start hbegins)
    simpa [Tree.tokens, opening] using tellsText_of_open harrives
  · rename_i entry entries
    rw [String.toList_ofList]
    have hbegins : Begins (entryLines 0 [] (entry :: entries)) := by
      rw [entryLines_eq, List.nil_append]
      exact begins_entryText _ _ _ _
    have harrives := tells_entries (k := 0) (fun entry _ => tellsNode entry.2)
      (List.cons_ne_nil entry entries) rfl (Nat.le_refl 0) hnil (by decide) (reaches_start hbegins)
    simpa [Tree.tokens, opening] using tellsText_of_open harrives
  · rename_i hsequence hmapping
    rw [String.toList_ofList]
    cases tree with
    | sequence items =>
      cases items with
      | nil => exact tellsText_empty (.inr ⟨rfl, rfl, rfl, rfl⟩)
      | cons item items => exact absurd rfl (hsequence item items)
    | mapping entries =>
      cases entries with
      | nil => exact tellsText_empty (.inl ⟨rfl, rfl, rfl, rfl⟩)
      | cons entry entries => exact absurd rfl (hmapping entry entries)
    | _ => exact tellsText_leaf rfl

end Lexing

namespace TokenStream

open Lexing Relation

/-- A run to the end of a text is what reading it gives. -/
theorem read_of_run {s t : Lexing} (hrun : Run s t) (hended : t.ended = true)
    (hs : s.ended = false) {limit : Nat} (hlimit : s.cursor.rest.length < limit) :
    read none limit s = ⟨t.lexemes.reverse, none⟩ := by
  induction hrun using ReflTransGen.head_induction_on generalizing limit with
  | refl => rw [hended] at hs; cases hs
  | head hstep hrun ih =>
    rename_i s next
    obtain ⟨-, hnext⟩ := hstep
    cases limit with
    | zero => exact absurd hlimit (Nat.not_lt_zero _)
    | succ limit =>
      simp only [read, hnext]
      cases hover : next.ended with
      | true =>
        -- Nothing follows the end of the text.
        obtain rfl : next = t := by
          rcases ReflTransGen.cases_head hrun with h | ⟨_, ⟨h, -⟩, -⟩
          · exact h
          · rw [hover] at h
            cases h
        rfl
      | false =>
        refine ih hover ?_
        cases step_tells hnext with
        | part h =>
          have := h.shorter
          omega
        | mark _ _ _ _ _ shorter => omega
        | finish _ _ _ _ _ ended => rw [hover] at ended; cases ended

/-- The token stream of a written document. -/
theorem ofString_write (tree : Tree) :
    ∃ lexemes, TokenStream.ofString (write tree) = ⟨lexemes, none⟩ ∧
      lexemes.map (·.token) = tree.tokens .mark ++ [.streamEnd] := by
  obtain ⟨t, hrun, hended, htold⟩ := tellsText_write tree
  refine ⟨t.lexemes.reverse, ?_, htold⟩
  rw [TokenStream.ofString, Source.ofString_write]
  exact read_of_run hrun hended rfl (Nat.lt_succ_self _)

end TokenStream

end CollectorTemplate.Yaml
