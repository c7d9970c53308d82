/-
One token after another.

Most tokens are parts of nodes, and the others mark where a document begins or ends.  A step of
reading puts parts among the tokens that there are already, since the opening of a collection may
come before its first key, and then tells one more at the end.

* `Token.isPart`, `Token.isMark` : the two kinds of tokens;
* `Lexing.Tells` : what a step may do, and `Lexing.step_tells` : a step does no more than that;
* `Lexing.Run` : one step after another while the text lasts;
* `TokenStream.read_spec` : reading ends with a fault, or it is a run to the end of the text.
-/
import CollectorTemplate.Proofs.Yaml.Cursor
import Mathlib.Logic.Relation

namespace CollectorTemplate.Yaml

namespace Token

/-- Whether a token belongs to the text around documents. -/
def isMark : Token → Bool
  | .version .. | .tagHandle .. | .documentStart | .documentEnd => true
  | _ => false

/-- Whether a token belongs to a node.  An empty plain scalar is no token of a text. -/
def isPart : Token → Bool
  | .version .. | .tagHandle .. | .documentStart | .documentEnd | .streamEnd => false
  | .scalar .plain [] => false
  | _ => true

theorem isMark_eq_false_of_isPart {token : Token} (h : token.isPart = true) :
    token.isMark = false := by
  cases token with
  | version | tagHandle | documentStart | documentEnd => nomatch h
  | _ => rfl

theorem isMark_of_isDirective {token : Token} (h : Directive.IsDirective token) :
    token.isMark = true := by
  rcases h with ⟨major, minor, rfl⟩ | ⟨handle, expansion, rfl⟩
  · rfl
  · rfl

end Token

namespace Lexing

open Relation Cursor

variable {s t u : Lexing}

/-! ### Parts among tokens -/

/-- One list of tokens is the other with a part put somewhere. -/
def Put (l l' : List Lexeme) : Prop :=
  ∃ a x b, l = a ++ b ∧ l' = a ++ x :: b ∧ x.token.isPart = true

theorem put_cons {x : Lexeme} (h : x.token.isPart = true) (l : List Lexeme) : Put l (x :: l) :=
  ⟨[], x, l, rfl, rfl, h⟩

/-- No part is the end of the text. -/
theorem not_mem_of_puts {l l' : List Lexeme} (h : ReflTransGen Put l l')
    (hl : ∀ x ∈ l, x.token ≠ .streamEnd) : ∀ x ∈ l', x.token ≠ .streamEnd := by
  induction h with
  | refl => exact hl
  | tail _ hput ih =>
    obtain ⟨a, x, b, rfl, rfl, hx⟩ := hput
    intro y hy
    rcases (by simpa [or_left_comm] using hy : y = x ∨ y ∈ a ∨ y ∈ b) with rfl | hy | hy
    · rintro hend
      rw [hend] at hx
      nomatch hx
    · exact ih y (List.mem_append_left _ hy)
    · exact ih y (List.mem_append_right _ hy)

/-! ### Bookkeeping -/

/-- What happens before a token is told: parts may be put among the tokens, and nothing is read. -/
structure Prepares (s t : Lexing) : Prop where
  lexemes : ReflTransGen Put s.lexemes t.lexemes
  cursor : t.cursor = s.cursor
  outer : t.outer = s.outer
  ended : t.ended = s.ended

namespace Prepares

theorem refl (s : Lexing) : Prepares s s := ⟨.refl, rfl, rfl, rfl⟩

theorem trans (h : Prepares s t) (h' : Prepares t u) : Prepares s u :=
  ⟨h.lexemes.trans h'.lexemes, h'.cursor.trans h.cursor, h'.outer.trans h.outer,
    h'.ended.trans h.ended⟩

end Prepares

theorem prepares_insertAt {x : Lexeme} (h : x.token.isPart = true) (s : Lexing) (number : Nat) :
    Prepares s (s.insertAt number x) :=
  ⟨.single ⟨_, x, _, (List.take_append_drop (s.count - number) s.lexemes).symm, rfl, h⟩, rfl, rfl,
    rfl⟩

theorem prepares_closeBlocks (s : Lexing) (column : Int) : Prepares s (s.closeBlocks column) := by
  unfold closeBlocks
  split
  · exact .refl s
  · induction s.indents generalizing s with
    | nil =>
      unfold closeBlocks.go
      split
      · exact ⟨.single (put_cons rfl _), rfl, rfl, rfl⟩
      · exact .refl s
    | cons indent outer ih =>
      unfold closeBlocks.go
      split
      · refine Prepares.trans ?_ (ih _ ‹_›)
        exact ⟨.single (put_cons rfl _), rfl, rfl, rfl⟩
      · exact .refl s

theorem prepares_openBlock (token : Token) (h : token.isPart = true) (s : Lexing) (place : Mark)
    (number : Option Nat) : Prepares s (s.openBlock place number token) := by
  unfold openBlock
  split
  · cases number with
    | none => exact ⟨.single (put_cons h _), rfl, rfl, rfl⟩
    | some n =>
      obtain ⟨hlexemes, hcursor, houter, hended⟩ :=
        prepares_insertAt (x := ⟨token, place, place⟩) h s n
      exact ⟨hlexemes, hcursor, houter, hended⟩
  · exact .refl s

theorem prepares_dropPending (h : s.dropPending = .ok t) : Prepares s t := by
  unfold dropPending at h
  split at h
  · split at h
    · nomatch h
    · obtain rfl := Except.ok.inj h
      exact ⟨.refl, rfl, rfl, rfl⟩
  · obtain rfl := Except.ok.inj h
    exact .refl s

theorem prepares_savePending (h : s.savePending = .ok t) : Prepares s t := by
  unfold savePending at h
  split at h
  · obtain ⟨u, hu, h⟩ := bind_eq_ok.mp h
    obtain rfl := Except.ok.inj h
    obtain ⟨hlexemes, hcursor, houter, hended⟩ := prepares_dropPending hu
    exact ⟨hlexemes, hcursor, houter, hended⟩
  · obtain rfl := Except.ok.inj h
    exact .refl s

theorem dropStale_eq (h : s.dropStale = .ok t) : ∃ pending, t = { s with pending := pending } := by
  obtain ⟨-, -, h⟩ := bind_eq_ok.mp h
  obtain ⟨pending, -, h⟩ := bind_eq_ok.mp h
  exact ⟨pending, (Except.ok.inj h).symm⟩

/-! ### Tokens -/

/-- A part of a node is told, perhaps with others before it. -/
structure Adds (s t : Lexing) : Prop where
  lexemes : TransGen Put s.lexemes t.lexemes
  shorter : t.cursor.rest.length < s.cursor.rest.length
  ended : t.ended = s.ended

/-- What a step may do. -/
inductive Tells (s t : Lexing) : Prop
  | part (adds : Adds s t)
  /-- A mark is told, after the ends of collections. -/
  | mark (before : List Lexeme) (lexeme : Lexeme) (parts : ReflTransGen Put s.lexemes before)
      (lexemes : t.lexemes = lexeme :: before) (isMark : lexeme.token.isMark = true)
      (shorter : t.cursor.rest.length < s.cursor.rest.length) (ended : t.ended = s.ended)
  /-- The end of the text is told, after the ends of collections. -/
  | finish (before : List Lexeme) (place : Mark) (parts : ReflTransGen Put s.lexemes before)
      (lexemes : t.lexemes = ⟨.streamEnd, place, place⟩ :: before) (rest : t.cursor.rest = [])
      (ended : t.ended = true)

variable {c : Char} {after : List Char}

/-- One more part at the end, once the bookkeeping is done. -/
theorem adds_push {x : Lexeme} (h : Prepares s u) (hx : x.token.isPart = true)
    (hlexemes : t.lexemes = x :: u.lexemes)
    (hshorter : t.cursor.rest.length < s.cursor.rest.length) (hended : t.ended = u.ended) :
    Adds s t :=
  ⟨hlexemes ▸ .tail' h.lexemes (put_cons hx _), hshorter, hended.trans h.ended⟩

/-- An indicator is over when its characters are. -/
theorem length_forward (hc : s.cursor.rest = c :: after) (h : Prepares s u) {width : Nat}
    (hwidth : 0 < width) : (u.cursor.forward width).rest.length < s.cursor.rest.length := by
  have hlength : (s.cursor.forward width).rest.length = s.cursor.rest.length - width :=
    List.length_drop
  rw [h.cursor, hlength, hc, List.length_cons]
  omega

theorem adds_openFlow {token : Token} (hc : s.cursor.rest = c :: after)
    (htoken : token.isPart = true) (h : s.openFlow token = .ok t) : Adds s t := by
  obtain ⟨u, hu, h⟩ := bind_eq_ok.mp h
  obtain rfl := Except.ok.inj h
  have hprep := prepares_savePending hu
  exact adds_push (x := ⟨token, _, _⟩) hprep htoken rfl (length_forward hc hprep Nat.one_pos) rfl

theorem adds_closeFlow {token : Token} (hc : s.cursor.rest = c :: after)
    (htoken : token.isPart = true) (h : s.closeFlow token = .ok t) : Adds s t := by
  obtain ⟨u, hu, h⟩ := bind_eq_ok.mp h
  have hprep := prepares_dropPending hu
  have hlength := length_forward hc hprep Nat.one_pos
  dsimp only at h
  split at h
  · obtain rfl := Except.ok.inj h
    exact adds_push (x := ⟨token, _, _⟩) hprep htoken rfl hlength rfl
  · obtain rfl := Except.ok.inj h
    exact adds_push (x := ⟨token, _, _⟩) hprep htoken rfl hlength rfl

theorem adds_flowEntry (hc : s.cursor.rest = c :: after) (h : s.flowEntry = .ok t) :
    Adds s t := by
  obtain ⟨u, hu, h⟩ := bind_eq_ok.mp h
  obtain rfl := Except.ok.inj h
  have hprep := prepares_dropPending hu
  exact adds_push (x := ⟨.flowEntry, _, _⟩) hprep rfl rfl (length_forward hc hprep Nat.one_pos) rfl

theorem adds_blockEntry (hc : s.cursor.rest = c :: after) (h : s.blockEntry = .ok t) :
    Adds s t := by
  unfold blockEntry at h
  split at h
  · nomatch h
  · obtain ⟨u, hu, h⟩ := bind_eq_ok.mp h
    obtain rfl := Except.ok.inj h
    have hprep := (prepares_openBlock _ rfl s s.mark none).trans (prepares_dropPending hu)
    exact adds_push (x := ⟨.blockEntry, _, _⟩) hprep rfl rfl
      (length_forward hc hprep Nat.one_pos) rfl

theorem adds_explicitKey (hc : s.cursor.rest = c :: after) (h : s.explicitKey = .ok t) :
    Adds s t := by
  unfold explicitKey at h
  split at h
  · nomatch h
  · obtain ⟨u, hu, h⟩ := bind_eq_ok.mp h
    obtain rfl := Except.ok.inj h
    have hprep := (prepares_openBlock _ rfl s s.mark none).trans (prepares_dropPending hu)
    exact adds_push (x := ⟨.key, _, _⟩) hprep rfl rfl (length_forward hc hprep Nat.one_pos) rfl

theorem adds_mappingValue (hc : s.cursor.rest = c :: after) (h : s.mappingValue = .ok t) :
    Adds s t := by
  unfold mappingValue at h
  split at h
  · rename_i key hkey
    obtain rfl := Except.ok.inj h
    have hprep := (prepares_insertAt (x := ⟨.key, key.place, key.place⟩) rfl s key.number).trans
      (prepares_openBlock .blockMapping rfl _ key.place (some key.number))
    exact adds_push (x := ⟨.value, _, _⟩) hprep rfl rfl (length_forward hc hprep Nat.one_pos) rfl
  · split at h
    · nomatch h
    · obtain rfl := Except.ok.inj h
      have hprep := prepares_openBlock .blockMapping rfl s s.mark none
      exact adds_push (x := ⟨.value, _, _⟩) hprep rfl rfl (length_forward hc hprep Nat.one_pos) rfl

theorem adds_named {context : Context} {token : List Char → Token}
    (hc : s.cursor.rest = c :: after) (htoken : ∀ name, (token name).isPart = true)
    (h : s.named context token = .ok t) : Adds s t := by
  obtain ⟨u, hu, h⟩ := bind_eq_ok.mp h
  obtain ⟨⟨name, stop⟩, hname, h⟩ := bind_eq_ok.mp h
  obtain rfl := Except.ok.inj h
  have hprep := prepares_savePending hu
  rw [hprep.cursor] at hname
  refine adds_push (x := ⟨token name, _, _⟩) hprep (htoken name) rfl ?_ rfl
  rw [hc]
  exact Nat.lt_succ_of_le (Property.length_name hc hname)

theorem adds_tag (hc : s.cursor.rest = c :: after) (h : s.tag = .ok t) : Adds s t := by
  obtain ⟨u, hu, h⟩ := bind_eq_ok.mp h
  obtain ⟨⟨token, stop⟩, htag, h⟩ := bind_eq_ok.mp h
  obtain rfl := Except.ok.inj h
  have hprep := prepares_savePending hu
  rw [hprep.cursor] at htag
  obtain ⟨hlength, handle, suffix, rfl⟩ := Property.tag_spec hc htag
  refine adds_push (x := ⟨.tag handle suffix, _, _⟩) hprep rfl rfl ?_ rfl
  rw [hc]
  exact Nat.lt_succ_of_le hlength

theorem adds_blockScalar {style : Style} (hc : s.cursor.rest = c :: after)
    (h : s.blockScalar style = .ok t) (hstyle : style ≠ .plain) : Adds s t := by
  obtain ⟨u, hu, h⟩ := bind_eq_ok.mp h
  obtain ⟨⟨text, stop⟩, hscan, h⟩ := bind_eq_ok.mp h
  obtain rfl := Except.ok.inj h
  have hprep := prepares_dropPending hu
  rw [hprep.cursor] at hscan
  have hpart : (Token.scalar style text).isPart = true := by
    cases style with
    | plain => exact absurd rfl hstyle
    | _ => rfl
  refine adds_push (x := ⟨.scalar style text, _, _⟩) hprep hpart rfl ?_ rfl
  rw [hc]
  exact Nat.lt_succ_of_le (Block.length_scan hc hscan)

theorem adds_quotedScalar {style : Style} (hc : s.cursor.rest = c :: after)
    (h : s.quotedScalar style = .ok t) (hstyle : style ≠ .plain) : Adds s t := by
  obtain ⟨u, hu, h⟩ := bind_eq_ok.mp h
  have hprep := prepares_savePending hu
  rw [hprep.cursor] at h
  have hpart : ∀ text, (Token.scalar style text).isPart = true := by
    cases style with
    | plain => exact absurd rfl hstyle
    | _ => exact fun _ => rfl
  split at h
  · obtain ⟨⟨text, stop⟩, hscan, h⟩ := bind_eq_ok.mp h
    obtain rfl := Except.ok.inj h
    refine adds_push (x := ⟨.scalar style text, _, _⟩) hprep (hpart text) rfl ?_ rfl
    rw [hc]
    exact Nat.lt_succ_of_le (Quoted.length_single hc hscan)
  · obtain ⟨⟨text, stop⟩, hscan, h⟩ := bind_eq_ok.mp h
    obtain rfl := Except.ok.inj h
    refine adds_push (x := ⟨.scalar style text, _, _⟩) hprep (hpart text) rfl ?_ rfl
    rw [hc]
    exact Nat.lt_succ_of_le (Quoted.length_double hc hscan)

theorem adds_plainScalar (hc : s.cursor.rest = c :: after)
    (hstart : startsPlain s.inFlow c after = true) (h : s.plainScalar = .ok t) : Adds s t := by
  obtain ⟨u, hu, h⟩ := bind_eq_ok.mp h
  obtain ⟨⟨text, stop, broken⟩, hscan, h⟩ := bind_eq_ok.mp h
  obtain rfl := Except.ok.inj h
  have hprep := prepares_savePending hu
  have hflow : u.inFlow = s.inFlow := by rw [inFlow, inFlow, hprep.outer]
  rw [hprep.cursor, hflow] at hscan
  obtain ⟨htext, hlength⟩ := Plain.scan_spec hc hstart hscan
  have hpart : (Token.scalar .plain text).isPart = true := by
    cases text with
    | nil => exact absurd rfl htext
    | cons => rfl
  refine adds_push (x := ⟨.scalar .plain text, _, _⟩) hprep hpart rfl ?_ rfl
  rw [hc]
  exact Nat.lt_succ_of_le hlength

theorem tells_directive (hc : s.cursor.rest = '%' :: after) (h : s.directive = .ok t) :
    Tells s t := by
  obtain ⟨u, hu, h⟩ := bind_eq_ok.mp h
  obtain ⟨⟨lexeme, next⟩, hscan, h⟩ := bind_eq_ok.mp h
  obtain rfl := Except.ok.inj h
  have hprep := (prepares_closeBlocks s (-1)).trans (prepares_dropPending hu)
  rw [hprep.cursor] at hscan
  obtain ⟨hdirective, stop, halong, -, rfl⟩ := Directive.scan_spec hc hscan
  refine .mark u.lexemes lexeme hprep.lexemes rfl (Token.isMark_of_isDirective hdirective) ?_
    hprep.ended
  rw [hc]
  exact Nat.lt_succ_of_le ((length_newline stop).trans halong.length_le)

theorem tells_documentMark {token : Token} (hc : s.cursor.rest = c :: after)
    (htoken : token.isMark = true) (h : s.documentMark token = .ok t) : Tells s t := by
  obtain ⟨u, hu, h⟩ := bind_eq_ok.mp h
  obtain rfl := Except.ok.inj h
  have hprep := (prepares_closeBlocks s (-1)).trans (prepares_dropPending hu)
  exact .mark u.lexemes ⟨token, _, _⟩ hprep.lexemes rfl htoken
    (length_forward hc hprep (Nat.succ_pos 2)) hprep.ended

theorem tells_endText (h : s.endText = .ok t) : Tells s t := by
  obtain ⟨u, hu, h⟩ := bind_eq_ok.mp h
  obtain rfl := Except.ok.inj h
  have hprep := (prepares_closeBlocks _ (-1)).trans (prepares_dropPending hu)
  exact .finish u.lexemes _ hprep.lexemes rfl (congrArg _ hprep.cursor) rfl

/-- A token is a directive, a document marker or a part. -/
theorem token_cases (hc : s.cursor.rest = c :: after) (h : s.token c after = .ok t) :
    (s.mark.column = 0 ∧ c = '%' ∧ s.directive = .ok t) ∨
      (s.cursor.atDocumentMark = true ∧
        s.documentMark (if c == '-' then .documentStart else .documentEnd) = .ok t) ∨
      ((s.mark.column = 0 → c ≠ '%') ∧ s.cursor.atDocumentMark = false ∧ Adds s t) := by
  unfold token at h
  rcases ite_eq_iff.mp h with ⟨hpercent, hdirective⟩ | ⟨hpercent, h⟩
  · obtain ⟨hcolumn, hpercent⟩ := Bool.and_eq_true_iff.mp hpercent
    exact .inl ⟨beq_iff_eq.mp hcolumn, beq_iff_eq.mp hpercent, hdirective⟩
  rcases ite_eq_iff.mp h with ⟨hmark, h⟩ | ⟨hmark, h⟩
  · exact .inr (.inl ⟨hmark, h⟩)
  refine .inr (.inr ⟨fun hcolumn => ?_, Bool.not_eq_true _ ▸ hmark, ?_⟩)
  · rintro rfl
    exact hpercent (by simp [hcolumn])
  -- All other tokens are parts; the cases are the indicators in the order in which they are tried.
  rcases ite_eq_iff.mp h with ⟨-, h⟩ | ⟨-, h⟩
  · exact adds_openFlow hc rfl h
  rcases ite_eq_iff.mp h with ⟨-, h⟩ | ⟨-, h⟩
  · exact adds_openFlow hc rfl h
  rcases ite_eq_iff.mp h with ⟨-, h⟩ | ⟨-, h⟩
  · exact adds_closeFlow hc rfl h
  rcases ite_eq_iff.mp h with ⟨-, h⟩ | ⟨-, h⟩
  · exact adds_closeFlow hc rfl h
  rcases ite_eq_iff.mp h with ⟨-, h⟩ | ⟨-, h⟩
  · exact adds_flowEntry hc h
  rcases ite_eq_iff.mp h with ⟨-, h⟩ | ⟨-, h⟩
  · exact adds_blockEntry hc h
  rcases ite_eq_iff.mp h with ⟨-, h⟩ | ⟨-, h⟩
  · exact adds_explicitKey hc h
  rcases ite_eq_iff.mp h with ⟨-, h⟩ | ⟨-, h⟩
  · exact adds_mappingValue hc h
  rcases ite_eq_iff.mp h with ⟨-, h⟩ | ⟨-, h⟩
  · exact adds_named hc (fun _ => rfl) h
  rcases ite_eq_iff.mp h with ⟨-, h⟩ | ⟨-, h⟩
  · exact adds_named hc (fun _ => rfl) h
  rcases ite_eq_iff.mp h with ⟨-, h⟩ | ⟨-, h⟩
  · exact adds_tag hc h
  rcases ite_eq_iff.mp h with ⟨-, h⟩ | ⟨-, h⟩
  · exact adds_blockScalar hc h (fun h => nomatch h)
  rcases ite_eq_iff.mp h with ⟨-, h⟩ | ⟨-, h⟩
  · exact adds_blockScalar hc h (fun h => nomatch h)
  rcases ite_eq_iff.mp h with ⟨-, h⟩ | ⟨-, h⟩
  · exact adds_quotedScalar hc h (fun h => nomatch h)
  rcases ite_eq_iff.mp h with ⟨-, h⟩ | ⟨-, h⟩
  · exact adds_quotedScalar hc h (fun h => nomatch h)
  rcases ite_eq_iff.mp h with ⟨hstart, h⟩ | ⟨-, h⟩
  · exact adds_plainScalar hc hstart h
  · nomatch h

theorem tells_token (hc : s.cursor.rest = c :: after) (h : s.token c after = .ok t) :
    Tells s t := by
  rcases token_cases hc h with ⟨-, rfl, hdirective⟩ | ⟨-, hmark⟩ | ⟨-, -, hpart⟩
  · exact tells_directive hc hdirective
  · refine tells_documentMark hc ?_ hmark
    split
    · rfl
    · rfl
  · exact .part hpart

/-! ### Steps -/

/-- The cursor after a byte order mark at the beginning of a line. -/
def pastMark (s : Lexing) : Cursor :=
  if s.mark.column == 0 && s.cursor.peek? == some '\ufeff' then s.cursor.next else s.cursor

/-- The cursor after the blanks of a line and its comment. -/
def pastBlanks (s : Lexing) : Cursor :=
  (s.pastMark.dropWhile fun x =>
    x == ' ' || ((s.inFlow || !s.keyAllowed) && x == '\t')).skipComment

theorem skipSpace_succ (limit : Nat) (s : Lexing) :
    s.skipSpace (limit + 1) =
      match s.pastBlanks.rest with
      | [] => { s with cursor := s.pastBlanks }
      | x :: _ =>
        if isBreak x then
          skipSpace limit
            { s with cursor := s.pastBlanks.newline, keyAllowed := s.keyAllowed || !s.inFlow }
        else { s with cursor := s.pastBlanks } :=
  rfl

/-- Over white space only the cursor moves, and a key may be allowed. -/
theorem skipSpace_eq (limit : Nat) (s : Lexing) :
    ∃ keyAllowed, s.skipSpace limit =
      { s with cursor := (s.skipSpace limit).cursor, keyAllowed := keyAllowed } := by
  induction limit generalizing s with
  | zero => exact ⟨s.keyAllowed, rfl⟩
  | succ limit ih =>
    rw [skipSpace_succ]
    split
    · exact ⟨s.keyAllowed, rfl⟩
    · split
      · obtain ⟨keyAllowed, h⟩ := ih _
        exact ⟨keyAllowed, h⟩
      · exact ⟨s.keyAllowed, rfl⟩

theorem length_pastBlanks (s : Lexing) : s.pastBlanks.rest.length ≤ s.cursor.rest.length := by
  refine (along_skipComment _).length_le.trans ((length_dropWhile _ _).trans ?_)
  unfold pastMark
  split
  · exact length_next _
  · exact Nat.le_refl _

theorem length_skipSpace (limit : Nat) (s : Lexing) :
    (s.skipSpace limit).cursor.rest.length ≤ s.cursor.rest.length := by
  induction limit generalizing s with
  | zero => exact Nat.le_refl _
  | succ limit ih =>
    rw [skipSpace_succ]
    split
    · exact length_pastBlanks s
    · split
      · exact (ih _).trans ((length_newline _).trans (length_pastBlanks s))
      · exact length_pastBlanks s

/-- A step is over white space, out of the collections that end there, and over a token. -/
theorem step_cases (h : s.step = .ok t) :
    ∃ u v w, (s.skipSpace (s.cursor.rest.length + 1)).dropStale = .ok u ∧
      v = u.closeBlocks u.mark.column ∧
      (v.cursor.rest = [] ∧ v.endText = .ok w ∨
        ∃ c after, v.cursor.rest = c :: after ∧ v.token c after = .ok w) ∧
      w.dropStale = .ok t := by
  obtain ⟨u, hu, h⟩ := bind_eq_ok.mp h
  dsimp only at h
  split at h
  · rename_i hrest
    obtain ⟨w, hw, h⟩ := bind_eq_ok.mp h
    exact ⟨u, _, w, hu, rfl, .inl ⟨hrest, hw⟩, h⟩
  · rename_i c after hrest
    obtain ⟨w, hw, h⟩ := bind_eq_ok.mp h
    exact ⟨u, _, w, hu, rfl, .inr ⟨c, after, hrest, hw⟩, h⟩

/-- A step puts parts among the tokens and tells one token at the end. -/
theorem step_tells (h : s.step = .ok t) : Tells s t := by
  obtain ⟨u, v, w, hu, rfl, hw, ht⟩ := step_cases h
  obtain ⟨keyAllowed, hspace⟩ := skipSpace_eq (s.cursor.rest.length + 1) s
  have hlength := length_skipSpace (s.cursor.rest.length + 1) s
  obtain ⟨pending, hpending⟩ := dropStale_eq hu
  obtain ⟨pending', rfl⟩ := dropStale_eq ht
  have hprep := prepares_closeBlocks u u.mark.column
  have hlexemes : u.lexemes = s.lexemes := by rw [hpending, hspace]
  have hended : u.ended = s.ended := by rw [hpending, hspace]
  have hcursor : u.cursor.rest.length ≤ s.cursor.rest.length := by rwa [hpending]
  -- What is told here is told of the state behind the white space, whose tokens are those of `s`
  -- with parts among them.
  have htells : Tells (u.closeBlocks u.mark.column) w := by
    rcases hw with ⟨-, hw⟩ | ⟨c, after, hrest, hw⟩
    · exact tells_endText hw
    · exact tells_token hrest hw
  have hparts : ReflTransGen Put s.lexemes (u.closeBlocks u.mark.column).lexemes :=
    hlexemes ▸ hprep.lexemes
  rw [← hprep.cursor] at hcursor
  rw [← hprep.ended] at hended
  cases htells with
  | part h =>
    exact .part ⟨.trans_right hparts h.lexemes, h.shorter.trans_le hcursor, h.ended.trans hended⟩
  | mark before lexeme parts lexemes isMark shorter ended =>
    exact .mark before lexeme (hparts.trans parts) lexemes isMark (shorter.trans_le hcursor)
      (ended.trans hended)
  | finish before place parts lexemes rest ended =>
    exact .finish before place (hparts.trans parts) lexemes rest ended

/-- A step that does not end the text leaves less to read, and has not told the end. -/
theorem goesOn_of_step (h : s.step = .ok t) (hended : t.ended = false)
    (hend : ∀ x ∈ s.lexemes, x.token ≠ .streamEnd) :
    t.cursor.rest.length < s.cursor.rest.length ∧ ∀ x ∈ t.lexemes, x.token ≠ .streamEnd := by
  cases step_tells h with
  | part h => exact ⟨h.shorter, not_mem_of_puts h.lexemes.to_reflTransGen hend⟩
  | mark before lexeme parts lexemes isMark shorter =>
    refine ⟨shorter, fun x hx => ?_⟩
    rw [lexemes] at hx
    rcases List.mem_cons.mp hx with rfl | hx
    · rintro hx
      rw [hx] at isMark
      nomatch isMark
    · exact not_mem_of_puts parts hend x hx
  | finish _ _ _ _ _ ended => rw [ended] at hended; nomatch hended

/-- A step that leaves characters has not ended the text. -/
theorem not_ended_of_step (h : s.step = .ok t) (hended : s.ended = false)
    (hrest : t.cursor.rest ≠ []) : t.ended = false := by
  cases step_tells h with
  | part h => exact h.ended.trans hended
  | mark _ _ _ _ _ _ ended => exact ended.trans hended
  | finish _ _ _ _ rest => exact absurd rest hrest

/-! ### Runs -/

/-- One step after another while the text lasts. -/
def Run : Lexing → Lexing → Prop := ReflTransGen fun s t => s.ended = false ∧ s.step = .ok t

end Lexing

namespace TokenStream

open Lexing Relation

/-- Reading ends with a fault before the end of the text was told, or it is a run up to that end. -/
theorem read_spec (cut : Option Nat) {limit : Nat} {s : Lexing} (hs : s.ended = false)
    (hend : ∀ x ∈ s.lexemes, x.token ≠ .streamEnd) (hlimit : s.cursor.rest.length < limit) :
    ((read cut limit s).fault.isSome = true ∧
        ∀ x ∈ (read cut limit s).lexemes, x.token ≠ .streamEnd) ∨
      cut = none ∧
        ∃ t, Run s t ∧ t.ended = true ∧ read cut limit s = ⟨t.lexemes.reverse, none⟩ := by
  have hstopped : ∀ s : Lexing, ∀ fault, (∀ x ∈ s.lexemes, x.token ≠ .streamEnd) →
      (stopped s fault).fault.isSome = true ∧
        ∀ x ∈ (stopped s fault).lexemes, x.token ≠ .streamEnd := by
    intro s fault h
    exact ⟨rfl, fun x hx => h x (List.mem_reverse.mp (List.mem_of_mem_take hx))⟩
  induction limit generalizing s with
  | zero => exact absurd hlimit (Nat.not_lt_zero _)
  | succ limit ih =>
    unfold read
    -- First the two cases of a whole text, then those of a text that was cut.
    split
    · exact .inl (hstopped s _ hend)
    · rename_i t ht
      split
      · rename_i hended
        exact .inr ⟨rfl, t, .single ⟨hs, ht⟩, hended, rfl⟩
      · rename_i hended
        rw [Bool.not_eq_true] at hended
        obtain ⟨hlength, hlexemes⟩ := goesOn_of_step ht hended hend
        rcases ih hended hlexemes (by omega) with h | ⟨-, e, hrun, hover, h⟩
        · exact .inl h
        · exact .inr ⟨rfl, e, .head ⟨hs, ht⟩ hrun, hover, h⟩
    · split
      · exact .inl (hstopped s _ hend)
      · exact .inl (hstopped s _ hend)
    · rename_i t ht
      split
      · exact .inl (hstopped s _ hend)
      · rename_i hlong
        -- Characters are left, so that this step did not tell the end either.
        have hended := not_ended_of_step ht hs (List.ne_nil_of_length_pos (by omega))
        obtain ⟨hlength, hlexemes⟩ := goesOn_of_step ht hended hend
        rcases ih hended hlexemes (by omega) with h | ⟨h, -⟩
        · exact .inl h
        · nomatch h

end TokenStream

end CollectorTemplate.Yaml
