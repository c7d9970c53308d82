/-
Texts that the line test sees as the reader does.

A line is plain if its white space is spaces and tabs, and if what begins like a marker or a
directive stands at its beginning.  If the line test takes such a line for blank, it is idle.  So of
a text with plain lines, all of which LF ends, the test overlooks nothing.  A text is plain if its
white space is spaces, tabs and LF and its lines are plain.

* `isIdle_of_blankLine?` : a plain line that the line test takes for blank is idle;
* `LineFed.isBlank_eq` : where LF ends all lines, both ways to see lines come to the same;
* `LineFed.isSilent_of_isBlank`, `Plain.isSilent_of_isBlank` : such a text that the line test takes
  for blank is silent.
-/
import CollectorTemplate.Proofs.Fragment

namespace CollectorTemplate

open Yaml

theorem Text.trim_spec (text : List Char) :
    ∃ before after, text = before ++ (Text.trim text ++ after) ∧
      (∀ c ∈ before, Text.isSpace c = true) ∧ ∀ c ∈ after, Text.isSpace c = true := by
  refine ⟨text.takeWhile Text.isSpace,
    ((text.dropWhile Text.isSpace).reverse.takeWhile Text.isSpace).reverse, ?_, ?_, ?_⟩
  · rw [Text.trim, ← List.reverse_append, List.takeWhile_append_dropWhile, List.reverse_reverse,
      List.takeWhile_append_dropWhile]
  · exact fun c hc => List.mem_takeWhile_imp hc
  · exact fun c hc => List.mem_takeWhile_imp (List.mem_reverse.mp hc)

/-- What a text begins with is not trimmed unless it is white space. -/
theorem Text.head?_trim {c : Char} (h : Text.isSpace c = false) (text : List Char) :
    (Text.trim (c :: text)).head? = some c := by
  obtain ⟨before, after, hsplit, hbefore, hafter⟩ := Text.trim_spec (c :: text)
  have hnot : ∀ {white : List Char}, (∀ d ∈ white, Text.isSpace d = true) → c ∉ white := by
    intro white hwhite hmem
    rw [hwhite c hmem] at h
    nomatch h
  cases before with
  | cons d before =>
    obtain rfl := (List.cons.inj hsplit).1
    exact absurd List.mem_cons_self (hnot hbefore)
  | nil =>
    cases htrim : Text.trim (c :: text) with
    | nil =>
      rw [htrim, List.nil_append, List.nil_append] at hsplit
      exact absurd (hsplit ▸ List.mem_cons_self) (hnot hafter)
    | cons d rest =>
      rw [htrim] at hsplit
      rw [(List.cons.inj hsplit).1]
      rfl

namespace Fragment

/-! ### The parts of a line -/

/-- What a line loses with its comment: nothing, or the rest of it from a number sign on, which
stands at its beginning or after white space. -/
theorem stripComment_spec (space : Bool) (line : List Char) :
    ∃ comment, line = stripComment space line ++ comment ∧
      (comment = [] ∨ (∃ rest, comment = '#' :: rest) ∧
        (stripComment space line = [] ∧ space = true ∨
          ∃ c ∈ (stripComment space line).getLast?, Text.isAsciiSpace c = true)) := by
  induction line generalizing space with
  | nil => exact ⟨[], rfl, .inl rfl⟩
  | cons c line ih =>
    unfold stripComment
    split
    · rename_i hcomment
      exact ⟨c :: line, rfl, .inr ⟨⟨line, by rw [hcomment.2]⟩, .inl ⟨rfl, hcomment.1⟩⟩⟩
    · obtain ⟨comment, hsplit, hcomment⟩ := ih (Text.isAsciiSpace c)
      refine ⟨comment, congrArg (c :: ·) hsplit, hcomment.imp_right ?_⟩
      rintro ⟨hsign, hbefore⟩
      refine ⟨hsign, .inr ?_⟩
      rcases hbefore with ⟨hnone, hspace⟩ | ⟨d, hd, hspace⟩
      · rw [hnone]
        exact ⟨c, rfl, hspace⟩
      · refine ⟨d, ?_, hspace⟩
        rw [List.getLast?_cons, Option.mem_def.mp hd]
        rfl

/-- A line is what the line test looks at, with white space around it and a comment at the end.  The
comment does not follow on something else than white space. -/
theorem exists_parts (line : List Char) :
    ∃ before bare after comment, bare = Text.trim (stripComment true line) ∧
      line = before ++ (bare ++ (after ++ comment)) ∧
      (∀ c ∈ before, Text.isSpace c = true) ∧ (∀ c ∈ after, Text.isSpace c = true) ∧
      (comment = [] ∨ ∃ rest, comment = '#' :: rest) ∧
      ∀ c ∈ bare.getLast?, Text.isAsciiSpace c = false → after = [] → comment = [] := by
  obtain ⟨comment, hsplit, hcomment⟩ := stripComment_spec true line
  obtain ⟨before, after, htrim, hbefore, hafter⟩ := Text.trim_spec (stripComment true line)
  -- Where nothing follows the bare line, its last character is the last before the comment.
  refine ⟨before, _, after, comment, rfl, ?_, hbefore, hafter, hcomment.imp_right And.left, ?_⟩
  · rw [← List.append_assoc, ← List.append_assoc, List.append_assoc before, ← htrim]
    exact hsplit
  · rintro c hc hspace rfl
    have hlast : c ∈ (stripComment true line).getLast? := by
      rw [htrim, List.append_nil, List.getLast?_append, Option.mem_def.mp hc]
      rfl
    rcases hcomment with hnone | ⟨-, ⟨hempty, -⟩ | ⟨d, hd, hspace'⟩⟩
    · exact hnone
    · rw [hempty] at hlast
      nomatch hlast
    · obtain rfl := Option.some.inj (hlast.symm.trans hd)
      rw [hspace] at hspace'
      nomatch hspace'

/-- A line that begins with something else than white space, a comment, a marker or a directive has
content. -/
theorem blankLine?_eq_none {c : Char} (hspace : Text.isSpace c = false)
    (hc : c ≠ '#' ∧ c ≠ '.' ∧ c ≠ '-' ∧ c ≠ '%') (rest : List Char) :
    blankLine? (c :: rest) = none := by
  obtain ⟨hsign, hdot, hdash, hpercent⟩ := hc
  have hstrip : stripComment true (c :: rest) =
      c :: stripComment (Text.isAsciiSpace c) rest := if_neg fun h => hsign h.2
  obtain ⟨later, hbare⟩ := List.head?_eq_some_iff.mp (Text.head?_trim hspace _)
  rw [blankLine?, hstrip, hbare]
  simp [hdot, hdash, hpercent]

/-! ### Idle lines -/

theorem endsIdle_of_blanks {blanks comment : List Char}
    (hblanks : ∀ c ∈ blanks, Yaml.isBlank c = true)
    (hcomment : comment = [] ∨ ∃ rest, comment = '#' :: rest) :
    endsIdle (blanks ++ comment) = true := by
  induction blanks with
  | nil =>
    rcases hcomment with rfl | ⟨rest, rfl⟩
    · rfl
    · rfl
  | cons c blanks ih =>
    rw [List.cons_append, endsIdle_blank (hblanks c List.mem_cons_self)]
    exact ih fun d hd => hblanks d (List.mem_cons_of_mem _ hd)

theorem isIdle_of_endsIdle {line : List Char} (h : endsIdle line = true) : isIdle line = true := by
  unfold isIdle
  split
  · nomatch h
  · rfl
  · rw [h, Bool.true_or]

/-- A marker makes a line idle if only blanks and a comment follow, and no comment at once. -/
theorem isIdle_of_marker {m : Char} (hm : m = '-' ∨ m = '.') {blanks comment : List Char}
    (hblanks : ∀ c ∈ blanks, Yaml.isBlank c = true)
    (hcomment : comment = [] ∨ ∃ rest, comment = '#' :: rest)
    (hgap : blanks = [] → comment = []) : isIdle (m :: m :: m :: (blanks ++ comment)) = true := by
  have hends : endsIdle (blanks ++ comment) = true := endsIdle_of_blanks hblanks hcomment
  have hmark : isDocumentMark (m :: m :: m :: (blanks ++ comment)) = true := by
    refine isDocumentMark_iff.mpr ⟨m, _, hm, rfl, ?_⟩
    cases blanks with
    | nil =>
      rw [hgap rfl]
      rfl
    | cons c blanks =>
      show isSpacing c = true
      rw [isSpacing, hblanks c List.mem_cons_self, Bool.true_or]
  rcases hm with rfl | rfl
  · simp [isIdle, hmark, hends]
  · simp [isIdle, hmark, hends]

/-! ### Plain lines -/

/-- Blanks at the beginning of a line do not lead to what may be a marker or a directive. -/
def MarksFirst (line : List Char) : Prop :=
  ∀ c ∈ line.head?, Yaml.isBlank c = true →
    ∀ d ∈ (line.dropWhile Yaml.isBlank).head?, d ≠ '.' ∧ d ≠ '-' ∧ d ≠ '%'

/-- What may be a marker or a directive has no blanks before it. -/
theorem MarksFirst.eq_nil {before rest : List Char} {d : Char}
    (h : MarksFirst (before ++ d :: rest)) (hbefore : ∀ c ∈ before, Yaml.isBlank c = true)
    (hd : d = '.' ∨ d = '-' ∨ d = '%') : before = [] := by
  cases before with
  | nil => rfl
  | cons c before =>
    have hblank : Yaml.isBlank d = false := by rcases hd with rfl | rfl | rfl <;> rfl
    have hdrop : ((c :: before ++ d :: rest).dropWhile Yaml.isBlank).head? = some d := by
      rw [List.dropWhile_append_of_pos hbefore, List.dropWhile_cons_of_neg (by simp [hblank])]
      rfl
    obtain ⟨hdot, hdash, hpercent⟩ := h c rfl (hbefore c List.mem_cons_self) d hdrop
    rcases hd with hd | hd | hd
    · exact absurd hd hdot
    · exact absurd hd hdash
    · exact absurd hd hpercent

/-- The white space of a plain line is spaces and tabs, and what may be a marker or a directive is at
its beginning. -/
structure PlainLine (line : List Char) : Prop where
  space : ∀ c ∈ line, Text.isSpace c = true → Yaml.isBlank c = true
  marks : MarksFirst line

/-- A plain line that the line test takes for blank is idle. -/
theorem isIdle_of_blankLine? {line : List Char} (hplain : PlainLine line)
    (h : blankLine? line ≠ none) : isIdle line = true := by
  obtain ⟨hspace, hmarks⟩ := hplain
  obtain ⟨before, bare, after, comment, hbare, rfl, hbefore, hafter, hcomment, hgap⟩ :=
    exists_parts line
  have hbefore : ∀ c ∈ before, Yaml.isBlank c = true := fun c hc =>
    hspace c (by simp [hc]) (hbefore c hc)
  have hafter : ∀ c ∈ after, Yaml.isBlank c = true := fun c hc =>
    hspace c (by simp [hc]) (hafter c hc)
  have hmarker : ∀ m, m = '-' ∨ m = '.' → bare = [m, m, m] →
      isIdle (before ++ (bare ++ (after ++ comment))) = true := by
    rintro m hm rfl
    obtain rfl := hmarks.eq_nil hbefore (hm.elim (.inr ∘ .inl) .inl)
    show isIdle (m :: m :: m :: (after ++ comment)) = true
    refine isIdle_of_marker hm hafter hcomment (hgap m rfl ?_)
    rcases hm with rfl | rfl
    · rfl
    · rfl
  -- The cases of the line test, in its own order.
  unfold blankLine? at h
  rw [← hbare] at h
  dsimp only at h
  split at h
  · rename_i hnothing
    rcases hnothing with rfl | hdots
    · refine isIdle_of_endsIdle ?_
      rw [List.nil_append, ← List.append_assoc]
      refine endsIdle_of_blanks (fun c hc => ?_) hcomment
      exact (List.mem_append.mp hc).elim (hbefore c) (hafter c)
    · exact hmarker '.' (.inr rfl) hdots
  split at h
  · exact hmarker '-' (.inl rfl) ‹_›
  split at h
  · rename_i hhead
    obtain ⟨rest, rfl⟩ := List.head?_eq_some_iff.mp hhead
    obtain rfl := hmarks.eq_nil hbefore (.inr (.inr rfl))
    rfl
  · exact absurd rfl h

/-- All lines of a blank text are blank. -/
theorem blankLine?_ne_none {dangling : Bool} {lines : List (List Char)}
    (h : blankLines dangling lines = true) : ∀ line ∈ lines, blankLine? line ≠ none := by
  induction lines generalizing dangling with
  | nil => simp
  | cons line lines ih =>
    unfold blankLines at h
    refine List.forall_mem_cons.mpr ?_
    split at h
    · nomatch h
    · exact ⟨by simp_all, ih h⟩
    · exact ⟨by simp_all, ih h⟩
    · exact ⟨by simp_all, ih h⟩

/-! ### Lines -/

theorem dropReturn_eq {line : List Char} (h : '\r' ∉ line) : Text.dropReturn line = line := by
  unfold Text.dropReturn
  rw [if_neg]
  exact fun hlast => h (List.mem_of_getLast? hlast)

theorem blankLines_congr {later later' : List (List Char)}
    (h : ∀ dangling, blankLines dangling later = blankLines dangling later') (line : List Char)
    (dangling : Bool) :
    blankLines dangling (line :: later) = blankLines dangling (line :: later') := by
  rw [blankLines, blankLines]
  split
  · rfl
  · exact h dangling
  · exact h false
  · exact h true

/-- Texts whose lines end with LF, with or without a CR before it. -/
inductive LineFed : List Char → Prop
  | nil : LineFed []
  | char {c : Char} {text : List Char} (hc : isBreak c = false) (h : LineFed text) :
      LineFed (c :: text)
  | feed {text : List Char} (h : LineFed text) : LineFed ('\n' :: text)
  | returnFeed {text : List Char} (h : LineFed text) : LineFed ('\r' :: '\n' :: text)

namespace LineFed

variable {text : List Char}

theorem of_newlines (h : ∀ c ∈ text, isBreak c = true → c = '\n') : LineFed text := by
  induction text with
  | nil => exact .nil
  | cons c text ih =>
    obtain ⟨hc, htext⟩ := List.forall_mem_cons.mp h
    cases hbreak : isBreak c with
    | false => exact .char hbreak (ih htext)
    | true =>
      obtain rfl := hc hbreak
      exact .feed (ih htext)

/-- In such a text both ways to see lines agree on the first line, and on the others but for empty
lines between CR and LF, which the line test passes over. -/
theorem go_spec (h : LineFed text) (line : List Char) (hline : '\r' ∉ line) :
    ∃ first later later', Text.lines.go text line = (line.reverse ++ first) :: later ∧
      Yaml.lines text = first :: later' ∧
      ∀ dangling, blankLines dangling later = blankLines dangling later' := by
  induction h generalizing line with
  | nil => exact ⟨[], [], [], by simp [Text.lines.go], List.splitOnP_nil, fun _ => rfl⟩
  | @char c text hc _ ih =>
    have hfeed : c ≠ '\n' := by
      rintro rfl
      nomatch hc
    have hreturn : '\r' ∉ c :: line := by
      rintro (_ | ⟨_, hmem⟩)
      · nomatch hc
      · exact hline hmem
    obtain ⟨first, later, later', hgo, hlines, hsame⟩ := ih (c :: line) hreturn
    refine ⟨c :: first, later, later', ?_, lines_cons hc hlines, hsame⟩
    rw [Text.lines.go, if_neg hfeed, hgo, List.reverse_cons, List.append_assoc]
    rfl
  | @feed text _ ih =>
    obtain ⟨first, later, later', hgo, hlines, hsame⟩ := ih [] List.not_mem_nil
    refine ⟨[], first :: later, first :: later', ?_, ?_, blankLines_congr hsame first⟩
    · -- What was read of the line holds no CR, as that would have ended the line.
      rw [Text.lines.go, if_pos rfl, dropReturn_eq (by simpa using hline), hgo, List.append_nil]
      rfl
    · rw [lines_break rfl, hlines]
  | @returnFeed text _ ih =>
    obtain ⟨first, later, later', hgo, hlines, hsame⟩ := ih [] List.not_mem_nil
    refine ⟨[], first :: later, [] :: first :: later', ?_, ?_, blankLines_congr hsame first⟩
    · rw [Text.lines.go, if_neg (by decide), Text.lines.go, if_pos rfl, hgo, List.reverse_cons,
        Text.dropReturn, if_pos List.getLast?_concat, List.dropLast_concat, List.append_nil]
      rfl
    · rw [lines_break rfl, lines_break rfl, hlines]

/-- Such a text is as blank as the lines that the reader sees. -/
theorem isBlank_eq {raw : String} (h : LineFed raw.toList) :
    isBlank raw = blankLines false (Yaml.lines raw.toList) := by
  obtain ⟨first, later, later', hgo, hlines, hsame⟩ := h.go_spec [] List.not_mem_nil
  rw [isBlank, Text.lines, hgo, hlines]
  exact blankLines_congr hsame first false

/-- Such a text is silent if the line test takes it for blank and its lines are plain. -/
theorem isSilent_of_isBlank {raw : String} (h : LineFed raw.toList)
    (hlines : ∀ line ∈ Yaml.lines raw.toList, PlainLine line) (hblank : isBlank raw = true) :
    isSilent raw.toList = true := by
  rw [h.isBlank_eq] at hblank
  exact List.all_eq_true.mpr fun line hline =>
    isIdle_of_blankLine? (hlines line hline) (blankLine?_ne_none hblank line hline)

end LineFed

/-- A line holds characters of the text, and none that ends a line. -/
theorem mem_lines {text line : List Char} (h : line ∈ Yaml.lines text) :
    ∀ c ∈ line, c ∈ text ∧ isBreak c = false := by
  induction text generalizing line with
  | nil =>
    rw [Yaml.lines, List.splitOnP_nil, List.mem_singleton] at h
    simp [h]
  | cons b text ih =>
    obtain ⟨first, later, hlines⟩ := exists_lines text
    have hlater : ∀ l ∈ first :: later, ∀ c ∈ l, c ∈ b :: text ∧ isBreak c = false := by
      rw [← hlines]
      exact fun l hl c hc => (ih hl c hc).imp_left (List.mem_cons_of_mem _)
    cases hb : isBreak b with
    | true =>
      rw [lines_break hb, hlines] at h
      rcases List.mem_cons.mp h with rfl | h
      · simp
      · exact hlater line h
    | false =>
      rw [lines_cons hb hlines] at h
      rcases List.mem_cons.mp h with rfl | h
      · exact List.forall_mem_cons.mpr ⟨⟨List.mem_cons_self, hb⟩, hlater first List.mem_cons_self⟩
      · exact hlater line (List.mem_cons_of_mem _ h)

/-! ### Plain texts -/

/-- The white space of a plain text is spaces, tabs and LF, and what may be a marker or a directive
is at the beginning of its line. -/
structure Plain (text : List Char) : Prop where
  space : ∀ c ∈ text, Text.isSpace c = true → c = ' ' ∨ c = '\t' ∨ c = '\n'
  marks : ∀ line ∈ Yaml.lines text, MarksFirst line

namespace Plain

variable {raw : String}

theorem eq_newline {text : List Char} (h : Plain text) :
    ∀ c ∈ text, isBreak c = true → c = '\n' := by
  intro c hc hbreak
  have hspace : Text.isSpace c = true := by
    rcases (by simpa [isBreak, or_assoc] using hbreak : c = '\r' ∨ c = '\n' ∨ c = '\u0085' ∨
      c = '\u2028' ∨ c = '\u2029') with rfl | rfl | rfl | rfl | rfl <;> rfl
  rcases h.space c hc hspace with rfl | rfl | rfl
  · exact absurd hbreak (by decide)
  · exact absurd hbreak (by decide)
  · rfl

theorem plainLine {text : List Char} (h : Plain text) :
    ∀ line ∈ Yaml.lines text, PlainLine line := by
  refine fun line hline => ⟨fun c hc hspace => ?_, h.marks line hline⟩
  obtain ⟨hmem, hbreak⟩ := mem_lines hline c hc
  rcases h.space c hmem hspace with rfl | rfl | rfl
  · rfl
  · rfl
  · exact absurd hbreak (by decide)

/-- A plain text that the line test takes for blank is silent. -/
theorem isSilent_of_isBlank (hplain : Plain raw.toList) (h : isBlank raw = true) :
    isSilent raw.toList = true :=
  (LineFed.of_newlines hplain.eq_newline).isSilent_of_isBlank hplain.plainLine h

end Plain

end Fragment

end CollectorTemplate
