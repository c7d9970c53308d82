/-
Lines without content.

A text holds nothing if each of its lines is idle: blanks with a comment behind them, a document
marker with no more than that behind it, or a directive.  Here lines end where YAML ends them, only
spaces and tabs are blanks, and markers stand at the beginning of their line.

* `isIdle` : whether a line is idle;
* `isSilent` : whether all lines of a text are;
* `silentFrom` : the same for the rest of a text, read on at some column.

The equations for `silentFrom` follow the reader: they say what becomes of it over a blank, a
comment, a line break and a marker, and that it fails where anything else stands.
-/
import CollectorTemplate.Proofs.Yaml.Cursor
import Mathlib.Data.List.TakeWhile

namespace CollectorTemplate.Yaml

/-- The lines of a text, as YAML ends them. -/
def lines (text : List Char) : List (List Char) := text.splitOnP isBreak

/-- Whether nothing but blanks and a comment stands in the rest of a line. -/
def endsIdle (line : List Char) : Bool :=
  match line.dropWhile isBlank with
  | [] => true
  | c :: _ => c == '#'

/-- Whether a line holds no part of a node.  Behind a byte order mark neither markers nor directives
are at the beginning of the line any more. -/
def isIdle (line : List Char) : Bool :=
  match line with
  | '\ufeff' :: rest => endsIdle rest
  | '%' :: _ => true
  | _ => endsIdle line || (isDocumentMark line && endsIdle (line.drop 3))

/-- Whether no line of a text holds any part of a node. -/
def isSilent (text : List Char) : Bool := (lines text).all isIdle

/-- Whether no line holds any part of a node in the rest of a text that begins at a column. -/
def silentFrom (column : Nat) (text : List Char) : Bool :=
  match lines text with
  | [] => true
  | line :: later => (if column = 0 then isIdle line else endsIdle line) && later.all isIdle

/-! ### Lines -/

theorem lines_break {b : Char} (h : isBreak b = true) (text : List Char) :
    lines (b :: text) = [] :: lines text := by
  rw [lines, List.splitOnP_cons_eq_if_modifyHead, if_pos h, lines]

theorem lines_cons {c : Char} (h : isBreak c = false) {text line : List Char}
    {later : List (List Char)} (hlines : lines text = line :: later) :
    lines (c :: text) = (c :: line) :: later := by
  rw [lines] at hlines ⊢
  rw [List.splitOnP_cons_eq_if_modifyHead, if_neg (by simp [h]), hlines, List.modifyHead_cons]

theorem exists_lines (text : List Char) : ∃ line later, lines text = line :: later :=
  List.exists_cons_of_ne_nil (List.splitOnP_ne_nil _ _)

theorem lines_append {line : List Char} (h : ∀ c ∈ line, isBreak c = false) {text first : List Char}
    {later : List (List Char)} (hlines : lines text = first :: later) :
    lines (line ++ text) = (line ++ first) :: later := by
  induction line with
  | nil => exact hlines
  | cons c line ih =>
    exact lines_cons (h c List.mem_cons_self) (ih fun d hd => h d (List.mem_cons_of_mem _ hd))

/-- The first line of a text has what comes before the first break. -/
theorem head_lines {text line : List Char} {later : List (List Char)}
    (h : lines text = line :: later) : line = text.takeWhile (!isBreak ·) := by
  induction text generalizing line later with
  | nil =>
    rw [lines, List.splitOnP_nil] at h
    exact (List.cons.inj h).1.symm
  | cons c text ih =>
    cases hc : isBreak c with
    | true =>
      rw [lines_break hc] at h
      rw [List.takeWhile_cons_of_neg (by simp [hc])]
      exact (List.cons.inj h).1.symm
    | false =>
      obtain ⟨first, rest, hlines⟩ := exists_lines text
      rw [lines_cons hc hlines] at h
      rw [List.takeWhile_cons_of_pos (by simp [hc]), ← ih hlines]
      exact (List.cons.inj h).1.symm

/-! ### The rest of a text -/

theorem silentFrom_zero (text : List Char) : silentFrom 0 text = isSilent text := by
  obtain ⟨line, later, h⟩ := exists_lines text
  rw [silentFrom, isSilent, h, List.all_cons]
  rfl

@[simp] theorem silentFrom_nil (column : Nat) : silentFrom column [] = true := by
  cases column <;> rfl

theorem silentFrom_break {b : Char} (h : isBreak b = true) (column : Nat) (text : List Char) :
    silentFrom column (b :: text) = silentFrom 0 text := by
  rw [silentFrom, lines_break h, silentFrom_zero, isSilent]
  cases column <;> rfl

theorem endsIdle_blank {c : Char} (h : isBlank c = true) (line : List Char) :
    endsIdle (c :: line) = endsIdle line := by
  rw [endsIdle, endsIdle, List.dropWhile_cons_of_pos h]

theorem isIdle_blank {c : Char} (h : isBlank c = true) (line : List Char) :
    isIdle (c :: line) = endsIdle line := by
  rcases (by simpa [isBlank] using h : c = ' ' ∨ c = '\t') with rfl | rfl
  · simp [isIdle, isDocumentMark, endsIdle_blank h]
  · simp [isIdle, isDocumentMark, endsIdle_blank h]

theorem silentFrom_blank {c : Char} (h : isBlank c = true) (column : Nat) (text : List Char) :
    silentFrom column (c :: text) = silentFrom (column + 1) text := by
  obtain ⟨line, later, hlines⟩ := exists_lines text
  rw [silentFrom, silentFrom, lines_cons (not_isBreak_of_isBlank h) hlines, hlines]
  cases column with
  | zero => simp [isIdle_blank h]
  | succ column => simp [endsIdle_blank h]

theorem silentFrom_byteOrderMark (text : List Char) :
    silentFrom 0 ('\ufeff' :: text) = silentFrom 1 text := by
  obtain ⟨line, later, hlines⟩ := exists_lines text
  rw [silentFrom, silentFrom, lines_cons (by rfl) hlines, hlines]
  simp [isIdle]

/-- Over a part of a line, of which only the beginning counts. -/
theorem silentFrom_append {part : List Char} (h : ∀ c ∈ part, isBreak c = false) (column : Nat)
    {text line : List Char} {later : List (List Char)} (hlines : lines text = line :: later) :
    silentFrom column (part ++ text) =
      ((if column = 0 then isIdle (part ++ line) else endsIdle (part ++ line)) &&
        later.all isIdle) := by
  rw [silentFrom, lines_append h hlines]

/-- Over the rest of a line that is idle whatever it holds. -/
theorem silentFrom_rest {part after : List Char} (h : ∀ c ∈ part, isBreak c = false) {column : Nat}
    (hidle : ∀ line, (if column = 0 then isIdle (part ++ line) else endsIdle (part ++ line)) = true)
    (hafter : ∀ c ∈ after.head?, isBreak c = true) (column' : Nat) :
    silentFrom column (part ++ after) = silentFrom column' after := by
  cases after with
  | nil =>
    rw [silentFrom_append h column (List.splitOnP_nil : lines [] = _), hidle, silentFrom_nil]
    rfl
  | cons b after =>
    have hb : isBreak b = true := hafter b rfl
    rw [silentFrom_append h column (lines_break hb after), hidle, silentFrom_break hb,
      silentFrom_zero, isSilent, Bool.true_and]

/-- What follows the characters before a break is a break, or nothing. -/
theorem isBreak_of_head?_dropWhile {text : List Char} {c : Char}
    (h : c ∈ (text.dropWhile (!isBreak ·)).head?) : isBreak c = true := by
  have hnot := List.head?_dropWhile_not (!isBreak ·) text
  rw [Option.mem_def.mp h] at hnot
  simpa using hnot

/-- Over a comment to the end of its line. -/
theorem silentFrom_comment {part after : List Char} (h : ∀ c ∈ part, isBreak c = false)
    (hafter : ∀ c ∈ after.head?, isBreak c = true) (column column' : Nat) :
    silentFrom column ('#' :: part ++ after) = silentFrom column' after := by
  refine silentFrom_rest (List.forall_mem_cons.mpr ⟨by rfl, h⟩) (fun line => ?_) hafter column'
  cases column with
  | zero => rfl
  | succ column => rfl

/-- Over a directive and the rest of its line. -/
theorem silentFrom_directive {part after : List Char} (h : ∀ c ∈ part, isBreak c = false)
    (hafter : ∀ c ∈ after.head?, isBreak c = true) :
    silentFrom 0 ('%' :: part ++ after) = silentFrom 0 after :=
  silentFrom_rest (List.forall_mem_cons.mpr ⟨by rfl, h⟩) (fun line => rfl) hafter 0

theorem gapAhead_line {text line : List Char} {later : List (List Char)}
    (h : lines text = line :: later) : gapAhead line = gapAhead text := by
  rw [head_lines h]
  cases text with
  | nil => rfl
  | cons c text =>
    cases hc : isBreak c with
    | true => simp [List.takeWhile_cons_of_neg, hc, gapAhead, isSpacing]
    | false => simp [List.takeWhile_cons_of_pos, hc, gapAhead]

/-- A document marker at the beginning of a text, of dashes or of dots. -/
theorem isDocumentMark_iff {text : List Char} :
    isDocumentMark text = true ↔
      ∃ c rest, (c = '-' ∨ c = '.') ∧ text = c :: c :: c :: rest ∧ gapAhead rest = true := by
  constructor
  · intro h
    unfold isDocumentMark at h
    split at h
    · exact ⟨'-', _, .inl rfl, rfl, h⟩
    · exact ⟨'.', _, .inr rfl, rfl, h⟩
    · exact absurd h (by simp)
  · rintro ⟨c, rest, rfl | rfl, rfl, h⟩
    · exact h
    · exact h

theorem lines_mark {c : Char} (hc : c = '-' ∨ c = '.') {text line : List Char}
    {later : List (List Char)} (h : lines text = line :: later) :
    lines (c :: c :: c :: text) = (c :: c :: c :: line) :: later := by
  have hbreak : isBreak c = false := by rcases hc with rfl | rfl <;> rfl
  exact lines_cons hbreak (lines_cons hbreak (lines_cons hbreak h))

/-- A document marker stands in the first line as a whole. -/
theorem isDocumentMark_line {text line : List Char} {later : List (List Char)}
    (h : lines text = line :: later) : isDocumentMark line = isDocumentMark text := by
  rw [Bool.eq_iff_iff]
  constructor
  · intro hmark
    obtain ⟨c, rest, hc, rfl, hgap⟩ := isDocumentMark_iff.mp hmark
    -- What follows the marker in the text begins with what follows it in the line.
    have htext : c :: c :: c :: (rest ++ text.dropWhile (!isBreak ·)) = text := by
      have hsplit := List.takeWhile_append_dropWhile (p := (!isBreak ·)) (l := text)
      rwa [← head_lines h] at hsplit
    obtain ⟨first, others, hlines⟩ := exists_lines (rest ++ text.dropWhile (!isBreak ·))
    rw [← htext, lines_mark hc hlines] at h
    obtain rfl : first = rest := by
      simpa using (List.cons.inj h).1
    rw [← htext]
    exact isDocumentMark_iff.mpr ⟨c, _, hc, rfl, (gapAhead_line hlines).symm.trans hgap⟩
  · intro hmark
    obtain ⟨c, rest, hc, rfl, hgap⟩ := isDocumentMark_iff.mp hmark
    obtain ⟨first, others, hlines⟩ := exists_lines rest
    rw [lines_mark hc hlines] at h
    rw [← (List.cons.inj h).1]
    exact isDocumentMark_iff.mpr ⟨c, first, hc, rfl, (gapAhead_line hlines).trans hgap⟩

theorem silentFrom_documentMark {text : List Char} (h : isDocumentMark text = true) :
    silentFrom 0 text = silentFrom 3 (text.drop 3) := by
  obtain ⟨c, rest, hc, rfl, hgap⟩ := isDocumentMark_iff.mp h
  obtain ⟨line, later, hlines⟩ := exists_lines rest
  have hmark : isDocumentMark (c :: c :: c :: line) = true :=
    (isDocumentMark_line (lines_mark hc hlines)).trans h
  have hidle : isIdle (c :: c :: c :: line) = endsIdle line := by
    rcases hc with rfl | rfl
    · simp [isIdle, hmark, endsIdle, isBlank]
    · simp [isIdle, hmark, endsIdle, isBlank]
  have hdrop : (c :: c :: c :: rest).drop 3 = rest := rfl
  rw [hdrop, silentFrom, silentFrom, lines_mark hc hlines, hlines]
  simp [hidle]

/-- Anything else is part of a node. -/
theorem silentFrom_content {column : Nat} {c : Char} {text : List Char} (hblank : isBlank c = false)
    (hbreak : isBreak c = false) (hcomment : c ≠ '#')
    (hstart : column = 0 → c ≠ '\ufeff' ∧ c ≠ '%' ∧ isDocumentMark (c :: text) = false) :
    silentFrom column (c :: text) = false := by
  obtain ⟨line, later, hlines⟩ := exists_lines text
  have hends : endsIdle (c :: line) = false := by
    rw [endsIdle, List.dropWhile_cons_of_neg (by simp [hblank])]
    simpa using hcomment
  rw [silentFrom, lines_cons hbreak hlines]
  cases column with
  | succ column => simp [hends]
  | zero =>
    -- At the beginning of a line there are three more ways to be idle, each of them excluded.
    obtain ⟨hbom, hpercent, hmark⟩ := hstart rfl
    have hline := isDocumentMark_line (lines_cons hbreak hlines)
    rw [hmark] at hline
    have hidle : isIdle (c :: line) = false := by
      unfold isIdle
      split
      · exact absurd (List.cons.inj ‹_›).1 hbom
      · exact absurd (List.cons.inj ‹_›).1 hpercent
      · rw [hends, hline]
        rfl
    simp [hidle]

end CollectorTemplate.Yaml
