/-
Directives that wait for their document.

A directive belongs to the document that the next marker of dashes begins.  Until then it waits, and
at the end of a text none may.

* `waitsBehind` : whether a directive waits behind a line;
* `isWaiting` : whether one waits at the end of a text;
* `waitingFrom` : the same for the rest of a text, read on at some column;
* `SkipsSpace` : what does not change over blanks, comments and line breaks.

Both what is silent and what waits are told of the rest of a text without regard to its white space,
so that it is enough to go over white space once.
-/
import CollectorTemplate.Proofs.Yaml.Idle

namespace CollectorTemplate.Yaml

/-- Whether a directive waits behind a line; `waiting` says whether one does before it. -/
def waitsBehind (waiting : Bool) (line : List Char) : Bool :=
  match line with
  | '%' :: _ => true
  | '-' :: '-' :: '-' :: rest => waiting && !gapAhead rest
  | _ => waiting

/-- Whether a directive waits for its document at the end of a text. -/
def isWaiting (text : List Char) : Bool := (lines text).foldl waitsBehind false

/-- Whether a directive waits at the end of the rest of a text, which begins at a column. -/
def waitingFrom (waiting : Bool) (column : Nat) (text : List Char) : Bool :=
  match lines text with
  | [] => waiting
  | line :: later =>
    later.foldl waitsBehind (if column = 0 then waitsBehind waiting line else waiting)

/-! ### White space -/

/-- What is told of the rest of a text without regard to its white space. -/
structure SkipsSpace {α : Type} (told : Nat → List Char → α) : Prop where
  blank : ∀ {c : Char}, isBlank c = true → ∀ column text,
    told column (c :: text) = told (column + 1) text
  comment : ∀ {part after : List Char}, (∀ c ∈ part, isBreak c = false) →
    (∀ c ∈ after.head?, isBreak c = true) → ∀ column column',
      told column ('#' :: part ++ after) = told column' after
  newline : ∀ {b : Char}, isBreak b = true → ∀ column text,
    told column (b :: text) = told 0 text
  byteOrderMark : ∀ text, told 0 ('\ufeff' :: text) = told 1 text

namespace SkipsSpace

variable {α : Type} {told : Nat → List Char → α}

/-- At the end of a text the column does not count, or it would behind a comment. -/
theorem nil (h : SkipsSpace told) (column : Nat) : told column [] = told 0 [] := by
  have hpart : ∀ c ∈ ([] : List Char), isBreak c = false := fun c hc => nomatch hc
  have hafter : ∀ c ∈ ([] : List Char).head?, isBreak c = true := fun c hc => nomatch hc
  have hcomment (column : Nat) : told 0 ['#'] = told column [] :=
    h.comment hpart hafter 0 column
  exact (hcomment column).symm.trans (hcomment 0)

theorem dropWhile (h : SkipsSpace told) {p : Char → Bool} (hp : ∀ c, p c = true → isBlank c = true)
    (column : Nat) (text : List Char) :
    told (column + (text.takeWhile p).length) (text.dropWhile p) = told column text := by
  induction text generalizing column with
  | nil => rfl
  | cons c text ih =>
    cases hc : p c with
    | false =>
      rw [List.takeWhile_cons_of_neg (by simp [hc]), List.dropWhile_cons_of_neg (by simp [hc])]
      rfl
    | true =>
      rw [List.takeWhile_cons_of_pos hc, List.dropWhile_cons_of_pos hc, List.length_cons,
        h.blank (hp c hc), ← ih (column + 1)]
      congr 1
      omega

end SkipsSpace

theorem skipsSpace_silentFrom : SkipsSpace silentFrom where
  blank h := silentFrom_blank h
  comment h hafter := silentFrom_comment h hafter
  newline h := silentFrom_break h
  byteOrderMark := silentFrom_byteOrderMark

/-! ### The rest of a text -/

section

variable {waiting : Bool} {column : Nat} {text line : List Char} {later : List (List Char)}

theorem waitingFrom_lines (h : lines text = line :: later) : waitingFrom waiting column text =
    later.foldl waitsBehind (if column = 0 then waitsBehind waiting line else waiting) := by
  rw [waitingFrom, h]

theorem waitingFrom_zero (text : List Char) : waitingFrom false 0 text = isWaiting text := by
  obtain ⟨line, later, h⟩ := exists_lines text
  rw [waitingFrom_lines h, isWaiting, h, List.foldl_cons, if_pos rfl]

@[simp] theorem waitingFrom_nil (waiting : Bool) (column : Nat) :
    waitingFrom waiting column [] = waiting := by
  rw [waitingFrom_lines (List.splitOnP_nil : lines [] = _)]
  cases column with
  | zero => rfl
  | succ column => rfl

theorem waitingFrom_break {b : Char} (h : isBreak b = true) (waiting : Bool) (column : Nat)
    (text : List Char) : waitingFrom waiting column (b :: text) = waitingFrom waiting 0 text := by
  obtain ⟨line, later, hlines⟩ := exists_lines text
  rw [waitingFrom_lines (lines_break h text), waitingFrom_lines hlines, hlines, List.foldl_cons,
    if_pos rfl]
  cases column with
  | zero => rfl
  | succ column => rfl

/-- Over a character that begins neither a directive nor a marker. -/
theorem waitingFrom_cons {c : Char} (hbreak : isBreak c = false)
    (hc : ∀ line, waitsBehind waiting (c :: line) = waiting) (column : Nat) (text : List Char) :
    waitingFrom waiting column (c :: text) = waitingFrom waiting (column + 1) text := by
  obtain ⟨line, later, hlines⟩ := exists_lines text
  rw [waitingFrom_lines (lines_cons hbreak hlines), waitingFrom_lines hlines, hc, ite_self,
    if_neg (Nat.succ_ne_zero column)]

/-- Over the rest of a line, behind which `waiting'` says whether a directive waits. -/
theorem waitingFrom_rest {part after : List Char} {waiting' : Bool}
    (h : ∀ c ∈ part, isBreak c = false) (hafter : ∀ c ∈ after.head?, isBreak c = true)
    (hpart : (if column = 0 then waitsBehind waiting part else waiting) = waiting')
    (column' : Nat) :
    waitingFrom waiting column (part ++ after) = waitingFrom waiting' column' after := by
  cases after with
  | nil =>
    rw [waitingFrom_lines (lines_append h (List.splitOnP_nil : lines [] = _)), waitingFrom_nil,
      List.append_nil, hpart]
    rfl
  | cons b after =>
    have hb : isBreak b = true := hafter b rfl
    obtain ⟨line, later, hlines⟩ := exists_lines after
    rw [waitingFrom_break hb, waitingFrom_lines (lines_append h (lines_break hb after)),
      waitingFrom_lines hlines, hlines, List.foldl_cons, if_pos rfl, List.append_nil, hpart]

theorem skipsSpace_waitingFrom (waiting : Bool) : SkipsSpace (waitingFrom waiting) where
  blank h column text := by
    refine waitingFrom_cons (not_isBreak_of_isBlank h) (fun line => ?_) column text
    rcases (by simpa [isBlank] using h : _ = ' ' ∨ _ = '\t') with rfl | rfl
    · rfl
    · rfl
  comment h hafter column column' :=
    waitingFrom_rest (List.forall_mem_cons.mpr ⟨by rfl, h⟩) hafter (ite_self waiting) column'
  newline h := waitingFrom_break h waiting
  byteOrderMark := waitingFrom_cons (by rfl) (fun line => rfl) 0

/-- Behind a directive one waits. -/
theorem waitingFrom_directive {part after : List Char} (h : ∀ c ∈ part, isBreak c = false)
    (hafter : ∀ c ∈ after.head?, isBreak c = true) (waiting : Bool) :
    waitingFrom waiting 0 ('%' :: part ++ after) = waitingFrom true 0 after :=
  waitingFrom_rest (List.forall_mem_cons.mpr ⟨by rfl, h⟩) hafter rfl 0

/-- Behind a marker of dashes none waits, and one of dots changes nothing. -/
theorem waitingFrom_documentMark {c : Char} (hc : c = '-' ∨ c = '.') (hgap : gapAhead text = true)
    (waiting : Bool) :
    waitingFrom waiting 0 (c :: c :: c :: text) = waitingFrom (waiting && c != '-') 3 text := by
  obtain ⟨line, later, hlines⟩ := exists_lines text
  rw [waitingFrom_lines (lines_mark hc hlines), waitingFrom_lines hlines, if_pos rfl,
    if_neg (by decide)]
  have hline : gapAhead line = true := (gapAhead_line hlines).trans hgap
  rcases hc with rfl | rfl
  · simp [waitsBehind, hline]
  · simp [waitsBehind]

end

end CollectorTemplate.Yaml
