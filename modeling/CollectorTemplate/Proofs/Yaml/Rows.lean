/-
Places in a text.

A mark counts lines and the characters of its line, and so it names a place of a text only if the
text has that line and the line is long enough.  A cursor that is moved over characters of one line,
or over a whole break, goes from a place of the text to a later one.

* `rows` : the lines of a text;
* `Mark.Inside`, `Mark.Behind` : the places of a text, and the one behind it where the end of a text
  without a last break is told;
* `Cursor.At` : a cursor whose mark counts what it has left behind, with one lemma for each move;
* `Ends` : how a reader may end, well or in failure.
-/
import CollectorTemplate.Proofs.Yaml.Cursor

namespace CollectorTemplate

/-! ### How a reader may end -/

/-- The result is good, or the failure is one of those that may be. -/
def Ends {ε α : Type} (bad : ε → Prop) (good : α → Prop) : Except ε α → Prop
  | .ok a => good a
  | .error e => bad e

namespace Ends

variable {ε α β : Type} {bad : ε → Prop} {good good' : α → Prop} {next : β → Prop}
  {x : Except ε α}

theorem bind {f : α → Except ε β} (h : Ends bad good x) (hf : ∀ a, good a → Ends bad next (f a)) :
    Ends bad next (x >>= f) := by
  cases x with
  | error e => exact h
  | ok a => exact hf a h

theorem imp (h : Ends bad good x) (hgood : ∀ a, good a → good' a) : Ends bad good' x := by
  cases x with
  | error e => exact h
  | ok a => exact hgood a h

/-- A choice between two readers ends as either may. -/
theorem ite {p : Prop} [Decidable p] {y : Except ε α} (hx : p → Ends bad good x)
    (hy : ¬ p → Ends bad good y) : Ends bad good (if p then x else y) := by
  split
  · exact hx ‹_›
  · exact hy ‹_›

end Ends

namespace Yaml

/-! ### Lines -/

/-- The lines of a text, one more than it has breaks.  A CR with an LF behind it is one break. -/
def rows : List Char → List (List Char)
  | [] => [[]]
  | '\r' :: '\n' :: rest => [] :: rows rest
  | c :: rest => if isBreak c then [] :: rows rest else (rows rest).modifyHead (c :: ·)

section

variable {c : Char} {part rest text : List Char}

theorem rows_break (h : isBreak c = true) (hpair : ∀ after, c = '\r' → rest ≠ '\n' :: after) :
    rows (c :: rest) = [] :: rows rest := by
  rw [rows]
  · rw [if_pos h]
  · exact fun after hc hrest => hpair after hc hrest

theorem rows_other (h : isBreak c = false) :
    rows (c :: rest) = (rows rest).modifyHead (c :: ·) := by
  rw [rows]
  · rw [if_neg (by simp [h])]
  · rintro _ rfl
    nomatch h

theorem rows_append (h : ∀ c ∈ part, isBreak c = false) :
    rows (part ++ rest) = (rows rest).modifyHead (part ++ ·) := by
  induction part with
  | nil => exact List.modifyHead_id.symm ▸ rfl
  | cons c part ih =>
    obtain ⟨hc, hpart⟩ := List.forall_mem_cons.mp h
    rw [List.cons_append, rows_other hc, ih hpart, List.modifyHead_modifyHead]
    rfl

theorem exists_rows (text : List Char) : ∃ row later, rows text = row :: later := by
  refine List.exists_cons_of_ne_nil fun h => ?_
  induction text using rows.induct with
  | case1 => nomatch h
  | case2 rest => nomatch h
  | case3 c rest hpair hbreak => rw [rows_break hbreak hpair] at h; nomatch h
  | case4 c rest hpair hbreak ih =>
    rw [rows_other (eq_false_of_ne_true hbreak), List.modifyHead_eq_nil_iff] at h
    exact ih h

/-- More text leaves the lines as they are, but for the last one, which it may continue. -/
theorem rows_more (text more : List Char) :
    ∃ before last continued behind, rows text = before ++ [last] ∧
      rows (text ++ more) = before ++ (last ++ continued) :: behind := by
  induction text using rows.induct with
  | case1 =>
    obtain ⟨row, later, h⟩ := exists_rows more
    exact ⟨[], [], row, later, rfl, h⟩
  | case2 rest ih =>
    obtain ⟨before, last, continued, behind, htext, hmore⟩ := ih
    exact ⟨[] :: before, last, continued, behind, congrArg _ htext, congrArg _ hmore⟩
  | case3 c rest hpair hbreak ih =>
    by_cases hjoin : ∃ after, c = '\r' ∧ rest ++ more = '\n' :: after
    · -- A CR at the end of the text and an LF behind it become one break.
      obtain ⟨after, rfl, hafter⟩ := hjoin
      obtain rfl : rest = [] := by
        cases rest with
        | nil => rfl
        | cons d rest => exact absurd (congrArg (· :: rest) (List.cons.inj hafter).1) (hpair _ rfl)
      obtain rfl : more = '\n' :: after := hafter
      obtain ⟨row, later, h⟩ := exists_rows after
      exact ⟨[[]], [], row, later, rfl, congrArg _ h⟩
    · obtain ⟨before, last, continued, behind, htext, hmore⟩ := ih
      refine ⟨[] :: before, last, continued, behind, ?_, ?_⟩
      · rw [rows_break hbreak hpair, htext]
        rfl
      · rw [List.cons_append, rows_break hbreak fun after hc h => hjoin ⟨after, hc, h⟩, hmore]
        rfl
  | case4 c rest hpair hbreak ih =>
    have hother := eq_false_of_ne_true hbreak
    obtain ⟨before, last, continued, behind, htext, hmore⟩ := ih
    rw [List.cons_append, rows_other hother, rows_other hother, htext, hmore]
    cases before with
    | nil => exact ⟨[], c :: last, continued, behind, rfl, rfl⟩
    | cons row before => exact ⟨(c :: row) :: before, last, continued, behind, rfl, rfl⟩

end

/-! ### Marks -/

namespace Mark

/-- The first mark is not behind the second in the text. -/
def Upto (m n : Mark) : Prop := m.line < n.line ∨ m.line = n.line ∧ m.column ≤ n.column

theorem Upto.refl (m : Mark) : m.Upto m := .inr ⟨rfl, Nat.le_refl _⟩

theorem Upto.trans {k m n : Mark} (h : k.Upto m) (h' : m.Upto n) : k.Upto n := by
  unfold Upto at *
  omega

/-- Nothing is before the beginning of a text. -/
theorem isStart_of_upto {m n : Mark} (h : m.Upto n) (hn : n.isStart = true) :
    m.isStart = true := by
  simp only [isStart, Bool.and_eq_true, beq_iff_eq] at hn ⊢
  unfold Upto at h
  omega

/-- The mark names a place in a line of the text, or at its end. -/
def Inside (text : List Char) (m : Mark) : Prop :=
  ∃ row, (rows text)[m.line]? = some row ∧ m.column ≤ row.length

/-- The mark names the beginning of a line behind the text, which does not end with a break. -/
def Behind (text : List Char) (m : Mark) : Prop :=
  m.line = (rows text).length ∧ m.column = 0 ∧ (rows text).getLast? ≠ some []

/-- The mark names a place in the text or just behind it. -/
def Near (text : List Char) (m : Mark) : Prop := m.Inside text ∨ m.Behind text

theorem inside_start (text : List Char) : Inside text {} := by
  obtain ⟨row, later, h⟩ := exists_rows text
  exact ⟨row, by rw [h]; rfl, Nat.zero_le _⟩

/-- A place in or behind the beginning of a text is so in the whole text. -/
theorem Near.of_part {part text : List Char} {m : Mark} (h : m.Near part)
    (hpart : part <+: text) : m.Near text := by
  obtain ⟨more, rfl⟩ := hpart
  obtain ⟨before, last, continued, behind, hpart, htext⟩ := rows_more part more
  rcases h with ⟨row, hrow, hcolumn⟩ | ⟨hline, hcolumn, hlast⟩
  · rw [hpart] at hrow
    by_cases hm : m.line < before.length
    · rw [List.getElem?_append_left hm] at hrow
      exact .inl ⟨row, by rw [htext, List.getElem?_append_left hm, hrow], hcolumn⟩
    · -- The place is in the last line of the part, which may go on.
      rw [List.getElem?_append_right (by omega), List.getElem?_singleton] at hrow
      split at hrow
      · rename_i hzero
        obtain rfl := Option.some.inj hrow
        refine .inl ⟨last ++ continued, ?_, by simp; omega⟩
        rw [htext, List.getElem?_append_right (by omega), hzero]
        rfl
      · nomatch hrow
  · rw [hpart] at hline hlast
    rw [List.length_append, List.length_singleton] at hline
    rw [List.getLast?_concat, Ne, Option.some_inj] at hlast
    cases behind with
    | cons row behind =>
      refine .inl ⟨row, ?_, by omega⟩
      rw [htext, List.getElem?_append_right (by omega), hline, Nat.add_sub_cancel_left]
      rfl
    | nil =>
      refine .inr ⟨by rw [htext, hline]; simp, hcolumn, ?_⟩
      rw [htext, List.getLast?_concat, Ne, Option.some_inj, List.append_eq_nil_iff]
      exact fun h => hlast h.1

end Mark

/-- A fault is placed in the text or just behind it, and what was being read began no later. -/
structure Fault.Lies (text : List Char) (f : Fault) : Prop where
  place : f.place.Near text
  within : ∀ w ∈ f.within, w.2.Upto f.place

theorem Fault.Lies.of_part {part text : List Char} {f : Fault} (h : f.Lies part)
    (hpart : part <+: text) : f.Lies text :=
  ⟨h.place.of_part hpart, h.within⟩

/-! ### Cursors -/

/-- The cursor is at a place of the text, at `start` or behind it: its mark counts the lines that
are over, and the characters in front of it in its own. -/
structure Cursor.At (text : List Char) (start : Mark) (c : Cursor) : Prop where
  upto : start.Upto c.mark
  passed : ∃ earlier front, c.mark.line = List.length earlier ∧
    c.mark.column = List.length front ∧
    rows text = earlier ++ (rows c.rest).modifyHead (front ++ ·)

namespace Cursor.At

variable {text rest after part : List Char} {start first m : Mark} {c d : Cursor} {x : Char}

theorem outset (text : List Char) : At text {} (.start text) :=
  ⟨.refl _, [], [], rfl, rfl, List.modifyHead_id.symm ▸ rfl⟩

theorem here (h : c.At text start) : c.At text c.mark := ⟨.refl _, h.passed⟩

theorem of_upto (h : c.At text start) (hfirst : first.Upto start) : c.At text first :=
  ⟨hfirst.trans h.upto, h.passed⟩

theorem inside (h : c.At text start) : c.mark.Inside text := by
  obtain ⟨earlier, front, hline, hcolumn, hrows⟩ := h.passed
  obtain ⟨row, later, hrest⟩ := exists_rows c.rest
  refine ⟨front ++ row, ?_, by simp [hcolumn]⟩
  rw [hrows, hrest, List.modifyHead_cons, hline, List.getElem?_append_right (Nat.le_refl _),
    Nat.sub_self]
  rfl

/-- A fault at the cursor, met while reading what began at `start`. -/
theorem lies (h : c.At text start) (problem : Problem) (context : Context) :
    (c.fault problem context start).Lies text :=
  ⟨.inl h.inside, fun _ hw => Option.mem_some_iff.mp hw ▸ h.upto⟩

/-- Over characters of the same line. -/
theorem along (part : List Char) (h : c.At text start) (hrest : c.rest = part ++ d.rest)
    (hpart : ∀ x ∈ part, isBreak x = false) (hline : d.mark.line = c.mark.line)
    (hcolumn : d.mark.column = c.mark.column + part.length) : d.At text start := by
  obtain ⟨earlier, front, hearlier, hfront, hrows⟩ := h.passed
  refine ⟨h.upto.trans (.inr ⟨hline.symm, by omega⟩), earlier, front ++ part,
    hline.trans hearlier, by simp [hcolumn, hfront], ?_⟩
  rw [hrows, hrest, rows_append hpart, List.modifyHead_modifyHead]
  simp only [Function.comp_def, List.append_assoc]

/-- Over a line break. -/
theorem across (h : c.At text start) (hrows : rows c.rest = [] :: rows d.rest)
    (hline : d.mark.line = c.mark.line + 1) (hcolumn : d.mark.column = 0) : d.At text start := by
  obtain ⟨earlier, front, hearlier, -, hpassed⟩ := h.passed
  refine ⟨h.upto.trans (.inl (by omega)), earlier ++ [front], [], by simp [hline, hearlier],
    hcolumn, ?_⟩
  rw [hpassed, hrows, List.modifyHead_cons, List.append_nil, List.append_assoc]
  exact congrArg _ (congrArg _ (List.modifyHead_id.symm ▸ rfl))

theorem mark_next (h : At text start ⟨x :: rest, m⟩) (hx : isBreak x = false) :
    At text start ⟨rest, m.next x⟩ :=
  h.along [x] rfl (by simpa using hx) rfl rfl

theorem mark_newline (h : At text start ⟨x :: rest, m⟩) (hx : isBreak x = true)
    (hpair : ∀ after, x = '\r' → rest ≠ '\n' :: after) : At text start ⟨rest, m.newline x⟩ :=
  h.across (rows_break hx hpair) rfl rfl

theorem mark_pairedNewline (h : At text start ⟨'\r' :: '\n' :: rest, m⟩) :
    At text start ⟨rest, m.pairedNewline⟩ :=
  h.across rfl rfl rfl

theorem mark_forward (part : List Char) (h : At text start ⟨part ++ rest, m⟩)
    (hpart : ∀ x ∈ part, isBreak x = false) : At text start ⟨rest, m.forward part.length⟩ :=
  h.along part rfl hpart rfl rfl

/-! Moves of the cursor itself. -/

theorem next (h : c.At text start) (hc : ∀ x ∈ c.rest.head?, isBreak x = false) :
    c.next.At text start := by
  obtain ⟨rest, m⟩ := c
  cases rest with
  | nil => exact h
  | cons x rest => exact h.mark_next (hc x rfl)

theorem next_of_peek (h : c.At text start) (hc : c.peek? = some x) (hx : isBreak x = false) :
    c.next.At text start := by
  refine h.next fun y hy => ?_
  obtain rfl : x = y := Option.some.inj (hc.symm.trans hy)
  exact hx

theorem dropWhile {p : Char → Bool} (h : c.At text start)
    (hp : ∀ x, p x = true → isBreak x = false) : (c.dropWhile p).At text start :=
  h.along _ List.takeWhile_append_dropWhile.symm (fun x hx => hp x (List.mem_takeWhile_imp hx))
    (Mark.line_past _ _) (Mark.column_past _ _)

theorem forward {n : Nat} (h : c.At text start) (hn : n ≤ c.rest.length)
    (hc : ∀ x ∈ c.rest.take n, isBreak x = false) : (c.forward n).At text start :=
  h.along _ (List.take_append_drop n c.rest).symm hc rfl
    (by rw [List.length_take_of_le hn]; rfl)

theorem skipBlanks (h : c.At text start) : c.skipBlanks.At text start := by
  refine h.dropWhile fun x hx => ?_
  rcases (by simpa [isBlank] using hx : x = ' ' ∨ x = '\t') with rfl | rfl <;> rfl

theorem skipComment (h : c.At text start) : c.skipComment.At text start := by
  unfold Cursor.skipComment
  split
  · exact h.dropWhile fun x hx => by simpa using hx
  · exact h

theorem newline (h : c.At text start) : c.newline.At text start := by
  obtain ⟨rest, m⟩ := c
  unfold Cursor.newline
  split
  · rename_i after hrest
    obtain rfl : rest = '\r' :: '\n' :: after := hrest
    exact h.mark_pairedNewline
  · rename_i x after hpair hrest
    obtain rfl : rest = x :: after := hrest
    split
    · rename_i hx
      exact h.mark_newline hx hpair
    · exact h
  · exact h

end Cursor.At

end Yaml

end CollectorTemplate
