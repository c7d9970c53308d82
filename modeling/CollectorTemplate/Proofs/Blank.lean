/-
What becomes of texts without content.

The line test is there for texts without content, which the reader would make null of.  It answers
before the reader is asked, so it hides what the reader would say of a text with several empty
documents, and what it does not know for blank comes out as null.

* `LineFed.isBlank_iff` : a silent text is taken for blank, if LF ends all its lines, just if no
  directive waits at its end and no line begins with a byte order mark;
* `parse_of_documents` : a text with further documents fails just if it is not taken for blank;
* `parse_of_nothing` : a text without content is an empty mapping just if it is taken for blank,
  and null otherwise.
-/
import CollectorTemplate.Proofs.Plain

namespace CollectorTemplate

open Yaml

/-! ### Trimmed texts -/

namespace Text

/-- White space at the end is trimmed, and nothing else. -/
theorem trim_append {bare white : List Char} (hwhite : ∀ c ∈ white, isSpace c = true)
    (hhead : ∀ c ∈ bare.head?, isSpace c = false) (hlast : ∀ c ∈ bare.getLast?, isSpace c = false) :
    trim (bare ++ white) = bare := by
  have hreverse : (bare.reverse).dropWhile isSpace = bare.reverse := by
    cases hbare : bare.reverse with
    | nil => rfl
    | cons c rest =>
      have hc : c ∈ bare.getLast? := by
        rw [List.getLast?_eq_head?_reverse, hbare]
        rfl
      rw [List.dropWhile_cons_of_neg (by simp [hlast c hc])]
  have hwhite' : ∀ c ∈ white.reverse, isSpace c = true := fun c hc =>
    hwhite c (List.mem_reverse.mp hc)
  cases bare with
  | nil =>
    rw [trim, List.nil_append, List.dropWhile_eq_nil_iff.mpr hwhite]
    rfl
  | cons c bare =>
    rw [trim, List.cons_append, List.dropWhile_cons_of_neg (by simp [hhead c rfl]),
      ← List.cons_append, List.reverse_append, List.dropWhile_append_of_pos hwhite', hreverse,
      List.reverse_reverse]

end Text

namespace Fragment

variable {raw : String} {line rest : List Char} {later : List (List Char)}

/-! ### Idle lines -/

theorem isSpace_of_isBlank {c : Char} (h : Yaml.isBlank c = true) :
    Text.isSpace c = true ∧ Text.isAsciiSpace c = true ∧ c ≠ '#' := by
  rcases (by simpa [Yaml.isBlank] using h : c = ' ' ∨ c = '\t') with rfl | rfl
  · exact ⟨rfl, rfl, by decide⟩
  · exact ⟨rfl, rfl, by decide⟩

/-- What ends idle is blanks and a comment. -/
theorem exists_blanks (h : endsIdle line = true) :
    ∃ blanks comment, line = blanks ++ comment ∧ (∀ c ∈ blanks, Yaml.isBlank c = true) ∧
      (comment = [] ∨ ∃ rest, comment = '#' :: rest) := by
  refine ⟨line.takeWhile Yaml.isBlank, line.dropWhile Yaml.isBlank,
    List.takeWhile_append_dropWhile.symm, fun c hc => List.mem_takeWhile_imp hc, ?_⟩
  unfold endsIdle at h
  split at h
  · rename_i hnone
    exact .inl hnone
  · rename_i c rest hrest
    rw [beq_iff_eq.mp h] at hrest
    exact .inr ⟨rest, hrest⟩

/-- Of blanks and a comment the line test keeps the blanks. -/
theorem stripComment_blanks {blanks comment : List Char} {space : Bool}
    (hblanks : ∀ c ∈ blanks, Yaml.isBlank c = true)
    (hcomment : comment = [] ∨ ∃ rest, comment = '#' :: rest)
    (hspace : blanks = [] → comment = [] ∨ space = true) :
    stripComment space (blanks ++ comment) = blanks := by
  induction blanks generalizing space with
  | nil =>
    rcases hcomment with rfl | ⟨rest, rfl⟩
    · rfl
    · obtain hnone | rfl := hspace rfl
      · nomatch hnone
      · rfl
  | cons c blanks ih =>
    obtain ⟨hc, hblanks⟩ := List.forall_mem_cons.mp hblanks
    obtain ⟨-, hascii, hsign⟩ := isSpace_of_isBlank hc
    rw [List.cons_append, stripComment, if_neg (fun h => hsign h.2), hascii,
      ih hblanks fun _ => .inr rfl]

theorem blankLine?_of_endsIdle (h : endsIdle line = true) : blankLine? line = some .nothing := by
  obtain ⟨blanks, comment, rfl, hblanks, hcomment⟩ := exists_blanks h
  have hwhite : ∀ c ∈ blanks, Text.isSpace c = true := fun c hc =>
    (isSpace_of_isBlank (hblanks c hc)).1
  have hbare : Text.trim (stripComment true (blanks ++ comment)) = [] := by
    rw [stripComment_blanks hblanks hcomment fun _ => .inr rfl, ← List.nil_append blanks]
    exact Text.trim_append hwhite (fun c hc => nomatch hc) fun c hc => nomatch hc
  rw [blankLine?, hbare]
  rfl

theorem blankLine?_directive (rest : List Char) : blankLine? ('%' :: rest) = some .directive := by
  have hstrip : stripComment true ('%' :: rest) = '%' :: stripComment false rest := rfl
  obtain ⟨later, hbare⟩ := List.head?_eq_some_iff.mp
    (Text.head?_trim (by rfl : Text.isSpace '%' = false) (stripComment false rest))
  rw [blankLine?, hstrip, hbare]
  rfl

/-- A byte order mark is content to the line test. -/
theorem blankLine?_byteOrderMark (rest : List Char) : blankLine? ('\ufeff' :: rest) = none :=
  blankLine?_eq_none (by rfl) (by decide) rest

theorem blankLine?_mark {c : Char} (hc : c = '-' ∨ c = '.') (hgap : gapAhead rest = true)
    (h : endsIdle rest = true) :
    blankLine? (c :: c :: c :: rest) = some (if c = '-' then .start else .nothing) := by
  obtain ⟨blanks, comment, rfl, hblanks, hcomment⟩ := exists_blanks h
  have hwhite : ∀ d ∈ blanks, Text.isSpace d = true := fun d hd =>
    (isSpace_of_isBlank (hblanks d hd)).1
  -- A comment does not follow on the marker at once.
  have hnone : blanks = [] → comment = [] := by
    rintro rfl
    rcases hcomment with rfl | ⟨rest, rfl⟩
    · rfl
    · nomatch hgap
  have hstrip : stripComment false (blanks ++ comment) = blanks :=
    stripComment_blanks hblanks hcomment fun h => .inl (hnone h)
  have hbare : ∀ m, m = '-' ∨ m = '.' →
      Text.trim (stripComment true (m :: m :: m :: (blanks ++ comment))) = [m, m, m] := by
    rintro m (rfl | rfl)
    · show Text.trim (['-', '-', '-'] ++ stripComment false (blanks ++ comment)) = _
      rw [hstrip]
      exact Text.trim_append hwhite (by simp [Text.isSpace]) (by simp [Text.isSpace])
    · show Text.trim (['.', '.', '.'] ++ stripComment false (blanks ++ comment)) = _
      rw [hstrip]
      exact Text.trim_append hwhite (by simp [Text.isSpace]) (by simp [Text.isSpace])
  rw [blankLine?, hbare c hc]
  rcases hc with rfl | rfl
  · rfl
  · rfl

theorem waitsBehind_of_endsIdle (h : endsIdle line = true) (waiting : Bool) :
    waitsBehind waiting line = waiting := by
  obtain ⟨blanks, comment, rfl, hblanks, hcomment⟩ := exists_blanks h
  cases blanks with
  | nil =>
    rcases hcomment with rfl | ⟨rest, rfl⟩
    · rfl
    · rfl
  | cons c blanks =>
    have hc : Yaml.isBlank c = true := hblanks c List.mem_cons_self
    rcases (by simpa [Yaml.isBlank] using hc : c = ' ' ∨ c = '\t') with rfl | rfl
    · rfl
    · rfl

/-- An idle line that does not begin with a byte order mark is blank to the line test, which sees a
directive wait behind it as the reader does. -/
theorem blankLines_cons (h : isIdle line = true) (hbom : line.head? ≠ some '\ufeff')
    (dangling : Bool) (later : List (List Char)) :
    blankLines dangling (line :: later) = blankLines (waitsBehind dangling line) later := by
  -- The ways to be idle: a directive, blanks with a comment, or a marker.
  unfold isIdle at h
  split at h
  · exact absurd rfl hbom
  · rw [blankLines, blankLine?_directive]
    rfl
  rcases Bool.or_eq_true_iff.mp h with hends | hmark
  · rw [blankLines, blankLine?_of_endsIdle hends, waitsBehind_of_endsIdle hends]
  · obtain ⟨hmark, hends⟩ := Bool.and_eq_true_iff.mp hmark
    obtain ⟨c, rest, hc, rfl, hgap⟩ := isDocumentMark_iff.mp hmark
    rw [blankLines, blankLine?_mark hc hgap hends]
    rcases hc with rfl | rfl
    · rw [waitsBehind, hgap, Bool.not_true, Bool.and_false]
      rfl
    · rfl

/-- Of idle lines the line test asks that none begins with a byte order mark, and that no directive
waits behind them. -/
theorem blankLines_iff {lines : List (List Char)} (h : ∀ line ∈ lines, isIdle line = true)
    (dangling : Bool) : blankLines dangling lines = true ↔
      lines.foldl waitsBehind dangling = false ∧
        ∀ line ∈ lines, line.head? ≠ some '\ufeff' := by
  induction lines generalizing dangling with
  | nil =>
    rw [blankLines]
    simp
  | cons line lines ih =>
    obtain ⟨hline, hlines⟩ := List.forall_mem_cons.mp h
    by_cases hbom : line.head? = some '\ufeff'
    · obtain ⟨rest, rfl⟩ := List.head?_eq_some_iff.mp hbom
      refine iff_of_false (fun hblank => ?_) fun hnone => hnone.2 _ List.mem_cons_self rfl
      exact blankLine?_ne_none hblank _ List.mem_cons_self (blankLine?_byteOrderMark rest)
    · rw [blankLines_cons hline hbom, ih hlines, List.foldl_cons, List.forall_mem_cons]
      exact and_congr_right fun _ => (and_iff_right hbom).symm

/-- A silent text whose lines end with LF is taken for blank just if no directive waits at its end
and no line begins with a byte order mark. -/
theorem LineFed.isBlank_iff (h : LineFed raw.toList) (hsilent : isSilent raw.toList = true) :
    isBlank raw = true ↔ isWaiting raw.toList = false ∧
      ∀ line ∈ Yaml.lines raw.toList, line.head? ≠ some '\ufeff' := by
  rw [h.isBlank_eq, blankLines_iff (List.all_eq_true.mp hsilent), isWaiting]

/-! ### Several documents -/

/-- A text in which documents follow on the first fails just if the line test does not take it for
blank, and becomes an empty mapping otherwise.  So it fails if it is plain and a line of it is not
idle, and, where no line is and LF ends all lines, if a directive waits at its end or a byte order
mark begins a line, and not otherwise. -/
theorem parse_of_documents (hmore : (Document.ofString raw).more = true) :
    ((∃ e, parse raw = .error e) ↔ isBlank raw = false) ∧
    (isBlank raw = true → parse raw = .ok .empty) ∧
    (Plain raw.toList → isSilent raw.toList = false → ∃ e, parse raw = .error e) ∧
    (LineFed raw.toList → isSilent raw.toList = true →
      ((∃ e, parse raw = .error e) ↔ isWaiting raw.toList = true ∨
        ∃ line ∈ Yaml.lines raw.toList, line.head? = some '\ufeff')) := by
  have hfails : (∃ e, parse raw = .error e) ↔ isBlank raw = false := by
    constructor
    · rintro ⟨e, herror⟩
      rw [← Bool.not_eq_true]
      intro hblank
      rw [parse_of_isBlank hblank] at herror
      nomatch herror
    · intro hblank
      cases hread : read raw with
      | error e => exact ⟨_, parse_of_read_error hblank hread⟩
      | ok data =>
        -- Nothing follows a document that is read.
        rw [(Document.decode_accepts hread).2] at hmore
        nomatch hmore
  refine ⟨hfails, parse_of_isBlank, fun hplain hcontent => ?_, fun hfed hsilent => ?_⟩
  · rw [hfails, ← Bool.not_eq_true]
    intro hblank
    rw [hplain.isSilent_of_isBlank hblank] at hcontent
    nomatch hcontent
  · rw [hfails, ← Bool.not_eq_true, hfed.isBlank_iff hsilent, not_and_or, Bool.not_eq_false]
    refine or_congr_right ?_
    push Not
    rfl

/-- Two scalars are refused as two documents, and so are two empty documents with a directive behind
them. -/
theorem parse_of_documents_of_two :
    (Document.ofString "a\n---\nb\n").more = true ∧ (∃ e, parse "a\n---\nb\n" = .error e) ∧
      (Document.ofString "---\n---\n%YAML 1.2\n").more = true ∧
      ∃ e, parse "---\n---\n%YAML 1.2\n" = .error e := by
  have hscalars : (Document.ofString "a\n---\nb\n").more = true := by decide +kernel
  have hempty : (Document.ofString "---\n---\n%YAML 1.2\n").more = true := by decide +kernel
  have hplain : Plain "a\n---\nb\n".toList := by
    constructor
    · simp [Text.isSpace]
    · show ∀ line ∈ [['a'], ['-', '-', '-'], ['b'], []], MarksFirst line
      simp [MarksFirst, Yaml.isBlank]
  have hfed : LineFed "---\n---\n%YAML 1.2\n".toList := .of_newlines (by simp [isBreak])
  obtain ⟨-, -, hfails, -⟩ := parse_of_documents hscalars
  obtain ⟨-, -, -, hwaits⟩ := parse_of_documents hempty
  have hwaiting : isWaiting "---\n---\n%YAML 1.2\n".toList = true := by decide +kernel
  refine ⟨hscalars, hfails hplain (by decide +kernel), hempty, ?_⟩
  exact (hwaits hfed (by decide +kernel)).mpr (.inl hwaiting)

/-- Two documents are not refused if there is nothing in them, nor if they stand behind a comment
that a CR ends. -/
theorem parse_of_unrefused_documents :
    (Document.ofString "---\n---\n").more = true ∧ parse "---\n---\n" = .ok .empty ∧
      (Document.ofString "# c\r--- a\r--- b").more = true ∧
      parse "# c\r--- a\r--- b" = .ok .empty := by
  have hempty : (Document.ofString "---\n---\n").more = true := by decide +kernel
  have hscalars : (Document.ofString "# c\r--- a\r--- b").more = true := by decide +kernel
  exact ⟨hempty, parse_of_isBlank (by decide +kernel), hscalars,
    parse_of_isBlank (by decide +kernel)⟩

/-! ### No content -/

/-- A text that is read as no more than an empty document is an empty mapping just if the line test
takes it for blank, and null otherwise.  Where LF ends all lines, the line test takes it for blank
unless a byte order mark begins a line. -/
theorem parse_of_nothing {data : Untyped} (h : read raw = .ok data)
    (hcontent : ¬(Document.ofString raw).HoldsContent)
    (hproperties : ¬(Document.ofString raw).OnlyProperties) :
    (parse raw = .ok .empty ↔ isBlank raw = true) ∧
    (isBlank raw = false → parse raw = .ok .null) ∧
    (LineFed raw.toList → (parse raw = .ok .empty ↔
      ∀ line ∈ Yaml.lines raw.toList, line.head? ≠ some '\ufeff')) := by
  have hsilent := (isSilent_iff_of_read h).mpr ⟨hcontent, hproperties⟩
  have hnull : isBlank raw = false → parse raw = .ok .null := by
    intro hblank
    -- The reader is asked, and all it finds is null.
    obtain rfl := eq_null_of_isSilent h hsilent
    rw [parse_of_read hblank h]
    rfl
  have hempty : parse raw = .ok .empty ↔ isBlank raw = true := by
    constructor
    · intro hparse
      rw [← Bool.not_eq_false]
      intro hblank
      rw [hnull hblank] at hparse
      exact Tree.noConfusion (Except.ok.inj hparse)
    · exact parse_of_isBlank
  refine ⟨hempty, hnull, fun hfed => ?_⟩
  obtain ⟨htail, hmore⟩ := Document.decode_accepts h
  rw [hempty, hfed.isBlank_iff hsilent]
  exact and_iff_right (Document.not_isWaiting htail hmore hsilent)

theorem read_eq_null
    (h : (match read raw with
      | .ok .null => true
      | _ => false) = true) : read raw = .ok .null := by
  split at h
  · assumption
  · nomatch h

/-- A directive, the marker of its document with a comment behind it, and the document's end. -/
theorem parse_of_nothing_at_directive :
    read "%YAML 1.2\n--- # none\n...\n" = .ok .null ∧
      ¬(Document.ofString "%YAML 1.2\n--- # none\n...\n").HoldsContent ∧
      ¬(Document.ofString "%YAML 1.2\n--- # none\n...\n").OnlyProperties ∧
      LineFed "%YAML 1.2\n--- # none\n...\n".toList ∧
      parse "%YAML 1.2\n--- # none\n...\n" = .ok .empty := by
  have hread : read "%YAML 1.2\n--- # none\n...\n" = .ok .null :=
    read_eq_null (by decide +kernel)
  have hfed : LineFed "%YAML 1.2\n--- # none\n...\n".toList := .of_newlines (by simp [isBreak])
  obtain ⟨hcontent, hproperties⟩ := (isSilent_iff_of_read hread).mp (by decide +kernel)
  obtain ⟨-, -, hempty⟩ := parse_of_nothing hread hcontent hproperties
  exact ⟨hread, hcontent, hproperties, hfed, (hempty hfed).mpr (by decide +kernel)⟩

/-- Where CR ends the lines, the line test sees one line that is no marker. -/
theorem parse_of_returns :
    read "---\r...\r" = .ok .null ∧ ¬(Document.ofString "---\r...\r").HoldsContent ∧
      ¬(Document.ofString "---\r...\r").OnlyProperties ∧ parse "---\r...\r" = .ok .null := by
  have hread : read "---\r...\r" = .ok .null := read_eq_null (by decide +kernel)
  obtain ⟨hcontent, hproperties⟩ := (isSilent_iff_of_read hread).mp (by decide +kernel)
  refine ⟨hread, hcontent, hproperties, ?_⟩
  rw [parse_of_read (by decide +kernel) hread]
  rfl

end Fragment

end CollectorTemplate
