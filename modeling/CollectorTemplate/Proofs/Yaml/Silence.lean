/-
What the tokens say of a text without content.

Up to the first part of a node the reader is quiet: no collection is open and no key may have begun.
A quiet reader tells marks as long as the lines are idle, and a part at the first that is not.

* `Lexing.Quiet` : the states before the first part of a node;
* `Lexing.quiet_step` : a step from such a state ends the text, tells a mark, or tells a part where
  a line is not idle;
* `TokenStream.ofString_spec` : a text that is read to its end begins, after its marks, with a part
  of a node if it is not silent, and has no more than marks if it is; then a directive waits behind
  the marks just if one waits at the end of the text.
-/
import CollectorTemplate.Proofs.Yaml.Lexing
import CollectorTemplate.Proofs.Yaml.Waiting

namespace CollectorTemplate.Yaml

/-! ### Over white space -/

namespace Cursor

/-- Whether no line holds any part of a node from here on. -/
def silent (c : Cursor) : Bool := silentFrom c.mark.column c.rest

/-- What is told of the text from here on. -/
def ahead {α : Type} (told : Nat → List Char → α) (c : Cursor) : α := told c.mark.column c.rest

section

variable {α : Type} {told : Nat → List Char → α}

theorem ahead_dropWhile (h : SkipsSpace told) {p : Char → Bool}
    (hp : ∀ c, p c = true → isBlank c = true) (c : Cursor) :
    (c.dropWhile p).ahead told = c.ahead told := by
  unfold ahead dropWhile
  rw [Mark.column_past, h.dropWhile hp]

theorem ahead_skipComment (h : SkipsSpace told) (c : Cursor) :
    c.skipComment.ahead told = c.ahead told := by
  unfold skipComment
  split
  · rename_i hpeek
    obtain ⟨text, hrest⟩ : ∃ text, c.rest = '#' :: text := List.head?_eq_some_iff.mp hpeek
    have hsplit : '#' :: text.takeWhile (!isBreak ·) ++ text.dropWhile (!isBreak ·) = c.rest := by
      rw [hrest, List.cons_append, List.takeWhile_append_dropWhile]
    unfold ahead
    rw [← hsplit]
    show told _ (c.rest.dropWhile (!isBreak ·)) = _
    rw [hrest, List.dropWhile_cons_of_pos (by rfl)]
    refine (h.comment (fun x hx => ?_) (fun x hx => isBreak_of_head?_dropWhile hx) _ _).symm
    simpa using List.mem_takeWhile_imp hx
  · rfl

end

variable {c : Cursor}

theorem isBreak_of_atLineEnd (h : c.atLineEnd = true) : ∀ b ∈ c.rest.head?, isBreak b = true := by
  unfold atLineEnd at h
  split at h
  · rename_i hrest
    simp [hrest]
  · rename_i b rest hrest
    simpa [hrest] using h

section

variable {α : Type} {told : Nat → List Char → α}

/-- At the end of a line the column does not count. -/
theorem ahead_of_atLineEnd (hskips : SkipsSpace told) (h : c.atLineEnd = true) :
    c.ahead told = told 0 c.rest := by
  obtain ⟨rest, place⟩ := c
  cases rest with
  | nil => exact hskips.nil _
  | cons b rest =>
    have hb : isBreak b = true := h
    rw [ahead, hskips.newline hb, hskips.newline hb]

theorem ahead_newline (hskips : SkipsSpace told) (h : c.atLineEnd = true) :
    c.newline.ahead told = c.ahead told := by
  obtain ⟨rest, mark⟩ := c
  cases rest with
  | nil => rfl
  | cons b rest =>
    have hb : isBreak b = true := h
    unfold newline
    split
    · rename_i later hrest
      rw [ahead, ahead, hrest, hskips.newline (by rfl), hskips.newline (by rfl)]
      rfl
    · rename_i b' later _ hrest
      obtain ⟨rfl, rfl⟩ := List.cons.inj hrest
      rw [if_pos hb, ahead, ahead, hskips.newline hb]
      rfl
    · rfl

end

theorem length_newline_lt {b : Char} {rest : List Char} (hc : c.rest = b :: rest)
    (hb : isBreak b = true) : c.newline.rest.length < c.rest.length := by
  unfold newline
  split
  · rename_i later hrest
    rw [hrest]
    exact Nat.lt_succ_of_lt (Nat.lt_succ_self _)
  · rename_i b' later _ hrest
    obtain ⟨rfl, rfl⟩ := List.cons.inj (hc.symm.trans hrest)
    rw [if_pos hb, hc]
    exact Nat.lt_succ_self _
  · rename_i hrest
    rw [hc] at hrest
    nomatch hrest

/-- A comment goes on to the end of its line. -/
theorem skipComment_eq_self {x : Char} {rest : List Char} (h : c.skipComment.rest = x :: rest)
    (hx : isBreak x = false) : c.skipComment = c ∧ x ≠ '#' := by
  unfold skipComment at h ⊢
  split at h
  · -- Behind a comment a break would stand.
    have hbreak : isBreak x = true :=
      isBreak_of_head?_dropWhile (show x ∈ (c.rest.dropWhile _).head? from by
        rw [show c.rest.dropWhile _ = x :: rest from h]
        rfl)
    rw [hx] at hbreak
    nomatch hbreak
  · rename_i hpeek
    rw [if_neg hpeek]
    refine ⟨rfl, ?_⟩
    rintro rfl
    exact hpeek (by rw [peek?, h]; rfl)

theorem not_of_dropWhile {p : Char → Bool} {x : Char} {rest : List Char}
    (h : (c.dropWhile p).rest = x :: rest) : p x = false := by
  have hnot := List.head?_dropWhile_not p c.rest
  rw [show c.rest.dropWhile p = x :: rest from h] at hnot
  simpa using hnot

theorem dropWhile_column_zero {p : Char → Bool} (h : (c.dropWhile p).mark.column = 0) :
    c.mark.column = 0 ∧ (c.dropWhile p).rest = c.rest := by
  have hcolumn := Mark.column_past c.mark (c.rest.takeWhile p)
  rw [show (c.mark.past (c.rest.takeWhile p)).column = 0 from h] at hcolumn
  obtain ⟨hstart, hnone⟩ := Nat.add_eq_zero_iff.mp hcolumn.symm
  refine ⟨hstart, ?_⟩
  have hsplit := List.takeWhile_append_dropWhile (p := p) (l := c.rest)
  rwa [List.length_eq_zero_iff.mp hnone, List.nil_append] at hsplit

end Cursor

/-! ### Tokens before a document -/

/-- Whether a directive waits for its document behind a token; `waiting` says whether one does
before it. -/
def Token.waitsBehind (waiting : Bool) : Token → Bool
  | .version .. | .tagHandle .. => true
  | .documentStart => false
  | _ => waiting

theorem Token.waitsBehind_of_isDirective {token : Token} (h : Directive.IsDirective token)
    (waiting : Bool) : token.waitsBehind waiting = true := by
  rcases h with ⟨major, minor, rfl⟩ | ⟨handle, expansion, rfl⟩
  · rfl
  · rfl

/-- Whether a directive waits for its document behind tokens. -/
def waitsAfter (lexemes : List Lexeme) : Bool :=
  lexemes.foldl (fun waiting x => x.token.waitsBehind waiting) false

theorem waitsAfter_concat (lexemes : List Lexeme) (x : Lexeme) :
    waitsAfter (lexemes ++ [x]) = x.token.waitsBehind (waitsAfter lexemes) := by
  rw [waitsAfter, List.foldl_append]
  rfl

namespace Lexing

open Relation Cursor

variable {s t : Lexing}

/-- A byte order mark is over at the second column. -/
theorem next_byteOrderMark (hcolumn : s.mark.column = 0) (hpeek : s.cursor.peek? = some '\ufeff') :
    ∃ text, s.cursor.rest = '\ufeff' :: text ∧ s.cursor.next.rest = text ∧
      s.cursor.next.mark.column = 1 := by
  obtain ⟨text, hrest⟩ := List.head?_eq_some_iff.mp hpeek
  have hnext : s.cursor.next = ⟨text, s.mark.next '\ufeff'⟩ := by
    unfold Cursor.next
    rw [hrest]
    rfl
  have hmark : (s.mark.next '\ufeff').column = 1 := congrArg (· + 1) hcolumn
  exact ⟨text, hrest, by rw [hnext], by rw [hnext, hmark]⟩

section

variable {α : Type} {told : Nat → List Char → α}

theorem ahead_pastMark (h : SkipsSpace told) (s : Lexing) :
    s.pastMark.ahead told = s.cursor.ahead told := by
  unfold pastMark
  split
  · rename_i hbom
    obtain ⟨hcolumn, hpeek⟩ := Bool.and_eq_true_iff.mp hbom
    rw [beq_iff_eq] at hcolumn
    obtain ⟨text, hrest, hnext, hone⟩ := next_byteOrderMark hcolumn (beq_iff_eq.mp hpeek)
    rw [ahead, ahead, hrest, hnext, hone, show s.cursor.mark.column = 0 from hcolumn,
      h.byteOrderMark]
  · rfl

theorem ahead_pastBlanks (h : SkipsSpace told) (s : Lexing) :
    s.pastBlanks.ahead told = s.cursor.ahead told := by
  rw [pastBlanks, ahead_skipComment h, ahead_dropWhile h, ahead_pastMark h]
  intro x hx
  rcases (by simpa using hx : x = ' ' ∨ (s.inFlow = true ∨ s.keyAllowed = false) ∧ x = '\t') with
    rfl | ⟨-, rfl⟩
  · rfl
  · rfl

/-- Over white space, what is told of the rest of the text stays the same. -/
theorem ahead_skipSpace (h : SkipsSpace told) (limit : Nat) (s : Lexing) :
    (s.skipSpace limit).cursor.ahead told = s.cursor.ahead told := by
  induction limit generalizing s with
  | zero => rfl
  | succ limit ih =>
    rw [skipSpace_succ]
    split
    · exact ahead_pastBlanks h s
    · rename_i x rest hrest
      split
      · rename_i hbreak
        rw [ih, ← ahead_pastBlanks h s]
        refine ahead_newline h ?_
        unfold atLineEnd
        rw [hrest]
        exact hbreak
      · exact ahead_pastBlanks h s

end

/-- A byte order mark at the beginning of a line is not left there. -/
theorem head_pastMark {x : Char} {rest : List Char} (hrest : s.pastMark.rest = x :: rest)
    (hcolumn : s.pastMark.mark.column = 0) : x ≠ '\ufeff' := by
  unfold pastMark at hrest hcolumn
  split at hcolumn
  · rename_i h
    obtain ⟨hzero, hpeek⟩ := Bool.and_eq_true_iff.mp h
    obtain ⟨-, -, -, hone⟩ := next_byteOrderMark (beq_iff_eq.mp hzero) (beq_iff_eq.mp hpeek)
    rw [hone] at hcolumn
    nomatch hcolumn
  · rename_i h
    rw [if_neg h] at hrest
    rintro rfl
    exact h (by simp [peek?, hrest, mark, hcolumn])

/-- Where the blanks of a line end, and not the line itself, there is no space or comment, and no
byte order mark at the beginning of the line. -/
theorem head_pastBlanks {x : Char} {rest : List Char} (hrest : s.pastBlanks.rest = x :: rest)
    (hx : isBreak x = false) :
    x ≠ ' ' ∧ x ≠ '#' ∧ (s.pastBlanks.mark.column = 0 → x ≠ '\ufeff') := by
  unfold pastBlanks at hrest ⊢
  obtain ⟨hskip, hcomment⟩ := skipComment_eq_self hrest hx
  rw [hskip] at hrest ⊢
  refine ⟨?_, hcomment, fun hcolumn => ?_⟩
  · rintro rfl
    nomatch not_of_dropWhile hrest
  · obtain ⟨hstart, hsame⟩ := dropWhile_column_zero hcolumn
    exact head_pastMark (hsame.symm.trans hrest) hstart

theorem head_skipSpace {limit : Nat} (hlimit : s.cursor.rest.length < limit) :
    ∀ x ∈ (s.skipSpace limit).cursor.rest.head?, isBreak x = false ∧ x ≠ ' ' ∧ x ≠ '#' ∧
      ((s.skipSpace limit).mark.column = 0 → x ≠ '\ufeff') := by
  induction limit generalizing s with
  | zero => exact absurd hlimit (Nat.not_lt_zero _)
  | succ limit ih =>
    rw [skipSpace_succ]
    split
    · simp_all
    · rename_i x rest hrest
      split
      · rename_i hbreak
        refine ih ?_
        exact (length_newline_lt hrest hbreak).trans_le
          ((length_pastBlanks s).trans (Nat.le_of_lt_succ hlimit))
      · rename_i hbreak
        rw [Bool.not_eq_true] at hbreak
        intro y hy
        obtain rfl : x = y := by simpa [hrest] using hy
        exact ⟨hbreak, head_pastBlanks hrest hbreak⟩

/-! ### Quiet states -/

/-- Whether a directive waits at the end of the text, as far as it was read and further on. -/
def waiting (s : Lexing) : Bool :=
  waitingFrom (waitsAfter s.lexemes.reverse) s.mark.column s.cursor.rest

/-- Nothing of a node has been read: no key may have begun, and no collection is open. -/
structure Quiet (s : Lexing) : Prop where
  pending : s.pending = none
  outer : s.outer = []
  demanded : s.demanded = none
  indent : s.indent = -1

namespace Quiet

theorem dropStale (h : s.Quiet) : s.dropStale = .ok s := by
  obtain ⟨cursor, lexemes, count, pending, outer, demanded, indent, indents, keyAllowed, ended⟩ := s
  obtain ⟨rfl, -, rfl, -⟩ := h
  rfl

theorem dropPending (h : s.Quiet) : s.dropPending = .ok s := by
  unfold Lexing.dropPending
  rw [h.pending]

theorem closeBlocks (h : s.Quiet) {column : Int} (hcolumn : -1 ≤ column) :
    s.closeBlocks column = s := by
  unfold Lexing.closeBlocks
  split
  · rfl
  · unfold closeBlocks.go
    rw [h.indent, if_neg (Int.not_lt.mpr hcolumn)]

theorem skipSpace (h : s.Quiet) (limit : Nat) : (s.skipSpace limit).Quiet := by
  obtain ⟨keyAllowed, hspace⟩ := skipSpace_eq limit s
  rw [hspace]
  exact ⟨h.pending, h.outer, h.demanded, h.indent⟩

/-- A mark leaves the reader quiet, and what is told of the whole text as it was. -/
structure Marks (s t : Lexing) : Prop where
  quiet : t.Quiet
  silent : t.cursor.silent = s.cursor.silent
  waiting : t.waiting = s.waiting
  ended : t.ended = s.ended
  mark : ∃ x : Lexeme, x.token.isMark = true ∧ t.lexemes = x :: s.lexemes

theorem directive {after : List Char} (hs : s.Quiet) (hc : s.cursor.rest = '%' :: after)
    (hcolumn : s.mark.column = 0) (h : s.directive = .ok t) : Marks s t := by
  obtain ⟨u, hu, h⟩ := bind_eq_ok.mp h
  rw [hs.closeBlocks (Int.le_refl _), hs.dropPending] at hu
  obtain rfl := Except.ok.inj hu
  obtain ⟨⟨lexeme, next⟩, hscan, h⟩ := bind_eq_ok.mp h
  obtain rfl := Except.ok.inj h
  obtain ⟨hdirective, stop, ⟨part, hrest, hpart⟩, hend, rfl⟩ := Directive.scan_spec hc hscan
  have hrest : s.cursor.rest = '%' :: part ++ stop.rest := hc.trans (congrArg _ hrest)
  have hafter := isBreak_of_atLineEnd hend
  -- The reader is on the next line already, which counts as the end of the directive's own.
  have hnext : ∀ {told : Nat → List Char → Bool}, SkipsSpace told →
      stop.newline.ahead told = told 0 stop.rest := fun hskips =>
    (ahead_newline hskips hend).trans (ahead_of_atLineEnd hskips hend)
  refine ⟨⟨hs.pending, hs.outer, hs.demanded, hs.indent⟩, ?_, ?_, rfl, lexeme,
    Token.isMark_of_isDirective hdirective, rfl⟩
  · refine (hnext skipsSpace_silentFrom).trans ?_
    rw [silent, hrest, show s.cursor.mark.column = 0 from hcolumn,
      silentFrom_directive hpart hafter]
  · refine (hnext (skipsSpace_waitingFrom _)).trans ?_
    rw [waiting, hrest, hcolumn, waitingFrom_directive hpart hafter]
    show waitingFrom (waitsAfter (lexeme :: s.lexemes).reverse) 0 stop.rest = _
    rw [List.reverse_cons, waitsAfter_concat, Token.waitsBehind_of_isDirective hdirective]

theorem documentMark {c : Char} {after : List Char} (hs : s.Quiet)
    (hc : s.cursor.rest = c :: after) (hmark : s.cursor.atDocumentMark = true)
    (h : s.documentMark (if c == '-' then .documentStart else .documentEnd) = .ok t) :
    Marks s t := by
  obtain ⟨u, hu, h⟩ := bind_eq_ok.mp h
  rw [hs.closeBlocks (Int.le_refl _), hs.dropPending] at hu
  obtain rfl := Except.ok.inj hu
  obtain rfl := Except.ok.inj h
  obtain ⟨hcolumn, hmark⟩ := Bool.and_eq_true_iff.mp hmark
  rw [beq_iff_eq] at hcolumn
  obtain ⟨c', rest, hc', hrest, hgap⟩ := isDocumentMark_iff.mp hmark
  obtain rfl : c = c' := (List.cons.inj (hc.symm.trans hrest)).1
  refine ⟨⟨hs.pending, hs.outer, hs.demanded, hs.indent⟩, ?_, ?_, rfl,
    ⟨if c == '-' then .documentStart else .documentEnd, _, _⟩, ?_, rfl⟩
  · show silentFrom (s.cursor.mark.column + 3) (s.cursor.rest.drop 3) = _
    rw [silent, hcolumn, silentFrom_documentMark hmark]
  · show waitingFrom (waitsAfter (_ :: s.lexemes).reverse) (s.cursor.mark.column + 3)
      (s.cursor.rest.drop 3) = _
    rw [waiting, show s.mark.column = 0 from hcolumn, hcolumn, hrest,
      waitingFrom_documentMark hc' hgap, List.reverse_cons, waitsAfter_concat]
    rcases hc' with rfl | rfl
    · simp [Token.waitsBehind]
    · simp [Token.waitsBehind]
  · rcases hc' with rfl | rfl
    · rfl
    · rfl

theorem endText (hs : s.Quiet) (h : s.endText = .ok t) :
    t.ended = true ∧ ∃ place, t.lexemes = ⟨.streamEnd, place, place⟩ :: s.lexemes := by
  have hquiet : ∀ place, Quiet { s with cursor := ⟨[], place⟩ } := fun _ =>
    ⟨hs.pending, hs.outer, hs.demanded, hs.indent⟩
  obtain ⟨u, hu, h⟩ := bind_eq_ok.mp h
  rw [(hquiet _).closeBlocks (Int.le_refl _), (hquiet _).dropPending] at hu
  obtain rfl := Except.ok.inj hu
  obtain rfl := Except.ok.inj h
  exact ⟨rfl, _, rfl⟩

end Quiet

/-- No token begins with a tab. -/
theorem token_tab {after : List Char} (hc : s.cursor.rest = '\t' :: after) :
    s.token '\t' after ≠ .ok t := by
  have hmark : s.cursor.atDocumentMark = false := by
    simp [atDocumentMark, hc, isDocumentMark]
  simp [token, hmark, startsPlain, isSpacing, isBlank]

/-- Where white space ends and neither a mark nor a tab stands, the text is not silent. -/
theorem silent_of_part {c : Char} {after : List Char} (hc : s.cursor.rest = c :: after)
    (hhead : isBreak c = false ∧ c ≠ ' ' ∧ c ≠ '#' ∧ (s.mark.column = 0 → c ≠ '\ufeff'))
    (hpercent : s.mark.column = 0 → c ≠ '%') (hmark : s.cursor.atDocumentMark = false)
    (htab : c ≠ '\t') : s.cursor.silent = false := by
  obtain ⟨hbreak, hspace, hcomment, hbom⟩ := hhead
  rw [silent, hc]
  refine silentFrom_content (by simp [isBlank, hspace, htab]) hbreak hcomment fun hcolumn => ?_
  refine ⟨hbom hcolumn, hpercent hcolumn, ?_⟩
  rw [atDocumentMark, hcolumn, hc] at hmark
  simpa using hmark

/-- A step from a quiet state ends the text, tells a mark, or tells a part where the text is not
silent. -/
theorem quiet_step (hs : s.Quiet) (h : s.step = .ok t) :
    (s.cursor.silent = true ∧ s.waiting = waitsAfter s.lexemes.reverse ∧ t.ended = true ∧
        ∃ place, t.lexemes = ⟨.streamEnd, place, place⟩ :: s.lexemes) ∨
      Quiet.Marks s t ∨
      (s.cursor.silent = false ∧ t.ended = s.ended ∧ TransGen Put s.lexemes t.lexemes) := by
  obtain ⟨u, v, w, hu, rfl, hw, ht⟩ := step_cases h
  -- In a quiet state neither stale keys nor open collections are there to drop, so that only the
  -- white space comes before the token.
  have hspace := hs.skipSpace (s.cursor.rest.length + 1)
  have hsilent : (s.skipSpace (s.cursor.rest.length + 1)).cursor.silent = s.cursor.silent :=
    ahead_skipSpace skipsSpace_silentFrom _ s
  have hhead := head_skipSpace (Nat.lt_succ_self s.cursor.rest.length)
  obtain ⟨keyAllowed, heq⟩ := skipSpace_eq (s.cursor.rest.length + 1) s
  rw [hspace.dropStale] at hu
  obtain rfl := Except.ok.inj hu
  have hlexemes : (s.skipSpace (s.cursor.rest.length + 1)).lexemes = s.lexemes := by rw [heq]
  have hended : (s.skipSpace (s.cursor.rest.length + 1)).ended = s.ended := by rw [heq]
  have hwaiting : (s.skipSpace (s.cursor.rest.length + 1)).waiting = s.waiting := by
    rw [waiting, waiting, hlexemes]
    exact ahead_skipSpace (skipsSpace_waitingFrom _) _ s
  rw [hspace.closeBlocks (by omega)] at hw
  rw [← hsilent, ← hwaiting, ← hlexemes]
  have hmarks : Quiet.Marks (s.skipSpace (s.cursor.rest.length + 1)) w → Quiet.Marks s t := by
    rintro ⟨hquiet, hrest, hwaits, hw, x, hx, hlast⟩
    rw [hquiet.dropStale] at ht
    obtain rfl := Except.ok.inj ht
    exact ⟨hquiet, hrest.trans hsilent, hwaits.trans hwaiting, hw.trans hended, x, hx,
      hlexemes ▸ hlast⟩
  rcases hw with ⟨hrest, hw⟩ | ⟨c, after, hrest, hw⟩
  · obtain ⟨hover, place, hplace⟩ := hspace.endText hw
    obtain ⟨pending, rfl⟩ := dropStale_eq ht
    refine .inl ⟨?_, ?_, hover, place, hplace⟩
    · rw [silent, hrest, silentFrom_nil]
    · rw [waiting, hrest, waitingFrom_nil]
  · have htab : c ≠ '\t' := by
      rintro rfl
      exact token_tab hrest hw
    rcases token_cases hrest hw with ⟨hcolumn, rfl, hdirective⟩ | ⟨hmark, hmarked⟩ |
      ⟨hpercent, hmark, hadds⟩
    · exact .inr (.inl (hmarks (hspace.directive hrest hcolumn hdirective)))
    · exact .inr (.inl (hmarks (hspace.documentMark hrest hmark hmarked)))
    · obtain ⟨pending, rfl⟩ := dropStale_eq ht
      have hpart := silent_of_part hrest (hhead c (by rw [hrest]; rfl)) hpercent hmark htab
      exact .inr (.inr ⟨hpart, hadds.ended.trans hended, hadds.lexemes⟩)

/-! ### The first part -/

/-- The first token that is no mark. -/
def firstOf (lexemes : List Lexeme) : Option Lexeme := lexemes.find? (!·.token.isMark)

/-- Among tokens, which stand latest first, a part comes before anything else but marks. -/
def Begun (l : List Lexeme) : Prop := ∃ x, firstOf l.reverse = some x ∧ x.token.isPart = true

variable {l l' : List Lexeme}

theorem firstOf_append (l l' : List Lexeme) : firstOf (l ++ l') = (firstOf l).or (firstOf l') :=
  List.find?_append

theorem firstOf_eq_none_iff : firstOf l = none ↔ ∀ x ∈ l, x.token.isMark = true := by
  rw [firstOf, List.find?_eq_none]
  simp

theorem begun_of_put (h : Put l l') (hl : ∀ x ∈ firstOf l.reverse, x.token.isPart = true) :
    Begun l' := by
  obtain ⟨a, x, b, rfl, rfl, hx⟩ := h
  -- The part is the first itself unless there is one before it, among the tokens of `b`.
  have hfirst : firstOf (x :: a.reverse) = some x :=
    List.find?_cons_of_pos (by simp [Token.isMark_eq_false_of_isPart hx])
  rw [List.reverse_append, firstOf_append] at hl
  unfold Begun
  rw [List.reverse_append, List.reverse_cons, List.append_assoc, firstOf_append]
  cases hb : firstOf b.reverse with
  | none => exact ⟨x, hfirst, hx⟩
  | some y => exact ⟨y, rfl, hl y (by rw [hb]; rfl)⟩

theorem begun_of_puts (h : TransGen Put l l')
    (hl : ∀ x ∈ firstOf l.reverse, x.token.isPart = true) : Begun l' := by
  induction h with
  | single hput => exact begun_of_put hput hl
  | tail _ hput ih =>
    obtain ⟨x, hfirst, hx⟩ := ih
    refine begun_of_put hput fun y hy => ?_
    obtain rfl : x = y := Option.some.inj (hfirst.symm.trans hy)
    exact hx

theorem Begun.puts (h : Begun l) (hputs : ReflTransGen Put l l') : Begun l' := by
  rcases reflTransGen_iff_eq_or_transGen.mp hputs with rfl | hputs
  · exact h
  · obtain ⟨x, hfirst, hx⟩ := h
    refine begun_of_puts hputs fun y hy => ?_
    obtain rfl : x = y := Option.some.inj (hfirst.symm.trans hy)
    exact hx

theorem Begun.cons (h : Begun l) (x : Lexeme) : Begun (x :: l) := by
  obtain ⟨y, hfirst, hy⟩ := h
  refine ⟨y, ?_, hy⟩
  rw [List.reverse_cons, firstOf_append, hfirst]
  rfl

/-! ### Runs -/

/-- What has been told of a text that is silent or not, with a directive that waits at its end or
not. -/
inductive Telling (silent waiting : Bool) (s : Lexing) : Prop
  /-- Nothing but marks. -/
  | quiet (quiet : s.Quiet) (rest : s.cursor.silent = silent) (wait : s.waiting = waiting)
      (marks : ∀ x ∈ s.lexemes, x.token.isMark = true)
  /-- A part of a node, after marks. -/
  | begun (content : silent = false) (begun : Begun s.lexemes)

/-- What the tokens of a text are at its end. -/
def Told (silent waiting : Bool) (s : Lexing) : Prop :=
  ∃ before place, s.lexemes = ⟨.streamEnd, place, place⟩ :: before ∧
    ((silent = true ∧ (∀ x ∈ before, x.token.isMark = true) ∧
        waitsAfter before.reverse = waiting) ∨
      (silent = false ∧ Begun before))

variable {silent waiting : Bool}

theorem Telling.step (hs : Telling silent waiting s) (h : s.step = .ok t) :
    (t.ended = s.ended ∧ Telling silent waiting t) ∨
      (t.ended = true ∧ Told silent waiting t) := by
  cases hs with
  | quiet hquiet hrest hwait hmarks =>
    rcases quiet_step hquiet h with ⟨hsilent, hwaits, hended, place, hlast⟩ |
      ⟨hquiet', hrest', hwait', hended, x, hx, hlast⟩ | ⟨hsilent, hended, hputs⟩
    · exact .inr ⟨hended, s.lexemes, place, hlast,
        .inl ⟨hrest.symm.trans hsilent, hmarks, hwaits.symm.trans hwait⟩⟩
    · refine .inl ⟨hended, .quiet hquiet' (hrest'.trans hrest) (hwait'.trans hwait) ?_⟩
      rw [hlast]
      exact List.forall_mem_cons.mpr ⟨hx, hmarks⟩
    · refine .inl ⟨hended, .begun (hrest.symm.trans hsilent) (begun_of_puts hputs fun x hx => ?_)⟩
      rw [firstOf_eq_none_iff.mpr fun y hy => hmarks y (List.mem_reverse.mp hy)] at hx
      nomatch hx
  | begun hcontent hbegun =>
    -- From now on the states need not be quiet, but no step puts a mark before the first part.
    cases step_tells h with
    | part hadds =>
      have hputs := hadds.lexemes.to_reflTransGen
      exact .inl ⟨hadds.ended, .begun hcontent (hbegun.puts hputs)⟩
    | mark before lexeme parts lexemes isMark shorter ended =>
      exact .inl ⟨ended, .begun hcontent (lexemes ▸ (hbegun.puts parts).cons lexeme)⟩
    | finish before place parts lexemes rest ended =>
      exact .inr ⟨ended, before, place, lexemes, .inr ⟨hcontent, hbegun.puts parts⟩⟩

theorem Telling.run (hs : Telling silent waiting s) (hended : s.ended = false) (h : Run s t) :
    (t.ended = false ∧ Telling silent waiting t) ∨ (t.ended = true ∧ Told silent waiting t) := by
  induction h with
  | refl => exact .inl ⟨hended, hs⟩
  | tail _ hstep ih =>
    obtain ⟨hlasts, hstep⟩ := hstep
    rcases ih with ⟨-, htelling⟩ | ⟨hover, -⟩
    · rcases htelling.step hstep with ⟨hsame, htelling⟩ | htold
      · exact .inl ⟨hsame.trans hlasts, htelling⟩
      · exact .inr htold
    · rw [hlasts] at hover
      nomatch hover

end Lexing

/-! ### Whole texts -/

theorem Source.all_isReadable_of_readFrom {text : List Char} {offset opened : Nat}
    {block before : List Char} (h : (readFrom text offset opened block before).cut = none) :
    text.all isReadable = true := by
  induction text generalizing offset opened block before with
  | nil => rfl
  | cons c text ih =>
    unfold readFrom at h
    dsimp only at h
    split at h
    · rename_i hc
      rw [List.all_cons, hc, ih h]
      rfl
    · nomatch h

/-- A text that is not cut is read as it is. -/
theorem Source.chars_of_cut {text : String} (h : (Source.ofString text).cut = none) :
    (Source.ofString text).chars = text.toList := by
  unfold Source.ofString at h ⊢
  split
  · rfl
  · rename_i hunreadable
    rw [if_neg hunreadable] at h
    exact absurd (all_isReadable_of_readFrom h) hunreadable

namespace TokenStream

open Lexing

/-- Before the end of a text its tokens are marks, if it is silent, or a part of a node comes after
marks. -/
def Spells (text : String) (before : List Lexeme) : Prop :=
  (isSilent text.toList = true ∧ (∀ x ∈ before, x.token.isMark = true) ∧
      waitsAfter before = isWaiting text.toList) ∨
    (isSilent text.toList = false ∧ ∃ x, firstOf before = some x ∧ x.token.isPart = true)

/-- The tokens of a text end with a fault, or with the end of the text. -/
theorem ofString_spec (text : String) :
    ((ofString text).fault.isSome = true ∧
        ∀ x ∈ (ofString text).lexemes, x.token ≠ .streamEnd) ∨
      ∃ before place, ofString text = ⟨before ++ [⟨.streamEnd, place, place⟩], none⟩ ∧
        Spells text before := by
  -- The whole run starts from a quiet state at the beginning of the text.
  have hread := read_spec (Source.ofString text).cut
    (s := { cursor := .start (Source.ofString text).chars }) rfl (by simp) (Nat.lt_succ_self _)
  rcases hread with hfault | ⟨hcut, t, hrun, hended, hread⟩
  · exact .inl hfault
  · rw [Source.chars_of_cut hcut] at hrun
    have hstart : Telling (isSilent text.toList) (isWaiting text.toList)
        { cursor := .start text.toList } :=
      .quiet ⟨rfl, rfl, rfl, rfl⟩ (silentFrom_zero _) (waitingFrom_zero _) (by simp)
    rcases hstart.run rfl hrun with ⟨hmore, -⟩ | ⟨-, before, place, hlast, htold⟩
    · rw [hended] at hmore
      nomatch hmore
    · refine .inr ⟨before.reverse, place, ?_, ?_⟩
      · rw [hlast, List.reverse_cons] at hread
        exact hread
      · rcases htold with ⟨hsilent, hmarks, hwaits⟩ | ⟨hcontent, hbegun⟩
        · exact .inl ⟨hsilent, fun x hx => hmarks x (List.mem_reverse.mp hx), hwaits⟩
        · exact .inr ⟨hcontent, hbegun⟩

end TokenStream

end CollectorTemplate.Yaml
