/-
Written scalars read back.

The style of a string is one that can hold it, so that what is written is read as the string again,
whether a colon follows it or it is the last on its line.

* `Scalar.Fits` : what each style can hold, and `Scalar.fits_styleOf`;
* `Lexing.reaches_scalar` : a written scalar, up to the next token;
* `Lexing.take_key` : a written scalar in front of a colon.
-/
import CollectorTemplate.Proofs.Yaml.Resting
import CollectorTemplate.Proofs.Yaml.Scalar.Block
import CollectorTemplate.Proofs.Yaml.Scalar.Plain
import CollectorTemplate.Proofs.Yaml.Scalar.Quoted

namespace CollectorTemplate.Yaml

namespace Scalar

variable {style : Style} {text : List Char}

/-- Whether a style can hold a text. -/
def Fits (style : Style) (text : List Char) : Prop :=
  match style with
  | .plain => plainHolds text = true ∧ text ≠ []
  | .singleQuoted => singleHolds text = true ∧ text.contains '\n' = false
  | .doubleQuoted => True
  | .literal => blockHolds text = true ∧ text ≠ []
  | .folded => False

theorem isAmbiguous_nil : isAmbiguous [] = true := rfl

theorem fits_styleOf (text : List Char) : Fits (styleOf text) text := by
  unfold styleOf
  split
  · rename_i hline
    split
    · rename_i hblock
      refine ⟨hblock, ?_⟩
      rintro rfl
      nomatch hline
    · trivial
  · rename_i hline
    rw [Bool.not_eq_true] at hline
    split
    · rename_i hplain
      obtain ⟨hholds, hclear⟩ := Bool.and_eq_true_iff.mp hplain
      refine ⟨hholds, ?_⟩
      rintro rfl
      rw [isAmbiguous_nil] at hclear
      nomatch hclear
    · split
      · rename_i hsingle
        exact ⟨hsingle, hline⟩
      · trivial

/-- Only a text with line feeds is written as a block. -/
theorem styleOf_ne_literal (hline : ∀ c ∈ text, isBreak c = false) : styleOf text ≠ .literal := by
  have hlf : '\n' ∉ text := fun h => nomatch hline '\n' h
  unfold styleOf
  rw [if_neg (by simp [hlf])]
  split
  · exact fun h => nomatch h
  · split <;> exact fun h => nomatch h

/-- What is written for a scalar, up to the end of its last line. -/
def scalarLines (indent : Nat) (style : Style) (text : List Char) : List Char :=
  written indent style text ++ (if endsLine style text then [] else ['\n'])

theorem lines_eq (indent : Nat) (text : List Char) :
    lines indent text = scalarLines indent (styleOf text) text := rfl

/-! ### Lines and lengths -/

/-- In single quotes a text of one line stays on it, and is at most twice as long. -/
theorem singleLines_spec (hline : ∀ c ∈ text, isBreak c = false) (indent : Nat) :
    (∀ c ∈ singleLines indent false text, isBreak c = false) ∧
      octets (singleLines indent false text) ≤ 2 * octets text := by
  induction text with
  | nil => exact ⟨fun c hc => (nomatch hc), Nat.zero_le _⟩
  | cons c text ih =>
    obtain ⟨hc, htext⟩ := List.forall_mem_cons.mp hline
    obtain ⟨hbreaks, hoctets⟩ := ih htext
    rw [singleLines, if_neg (by simp [hc]), if_neg Bool.false_ne_true, List.nil_append]
    by_cases hquote : c = '\''
    · subst hquote
      simp only [if_true, List.cons_append, List.nil_append, octets]
      exact ⟨by simpa [hc] using hbreaks, by omega⟩
    · simp only [if_neg hquote, List.cons_append, List.nil_append, octets]
      exact ⟨by simpa [hc] using hbreaks, by omega⟩

/-- In double quotes every text stays on one line, and is at most four times as long. -/
theorem doubleChars_spec (text : List Char) :
    (∀ c ∈ text.flatMap doubleChar, isBreak c = false) ∧
      octets (text.flatMap doubleChar) ≤ 4 * octets text := by
  induction text with
  | nil => exact ⟨fun c hc => (nomatch hc), Nat.zero_le _⟩
  | cons c text ih =>
    obtain ⟨hbreaks, hoctets⟩ := ih
    obtain ⟨hchar, hsize⟩ := Quoted.doubleChar_spec c
    rw [List.flatMap_cons, octets_append, octets]
    refine ⟨fun d hd => ?_, by omega⟩
    rcases List.mem_append.mp hd with hd | hd
    · exact hchar d hd
    · exact hbreaks d hd

/-- A text of one line is written on one line outside blocks, and what is written is at most four
times as long but for the quotes. -/
theorem written_line (hstyle : style ≠ .literal) (hfits : Fits style text)
    (hline : ∀ c ∈ text, isBreak c = false) (indent : Nat) :
    (∀ c ∈ written indent style text, isBreak c = false) ∧
      octets (written indent style text) ≤ 4 * octets text + 2 := by
  have hquotes (quote : Char) (inner : List Char) (hquote : isBreak quote = false)
      (hsize : quote.utf8Size = 1) (hbreaks : ∀ c ∈ inner, isBreak c = false) :
      (∀ c ∈ quote :: inner ++ [quote], isBreak c = false) ∧
        octets (quote :: inner ++ [quote]) = octets inner + 2 := by
    refine ⟨?_, ?_⟩
    · simpa [or_imp, forall_and, hquote] using hbreaks
    · rw [List.cons_append, octets, octets_append, octets]
      simp [hsize, octets]
      omega
  cases style with
  | plain =>
    refine ⟨hline, ?_⟩
    rw [written]
    omega
  | literal => exact absurd rfl hstyle
  | folded => exact hfits.elim
  | singleQuoted =>
    obtain ⟨hbreaks, hoctets⟩ := singleLines_spec hline indent
    obtain ⟨hall, hsum⟩ := hquotes '\'' _ rfl rfl hbreaks
    exact ⟨hall, by rw [written, hsum]; omega⟩
  | doubleQuoted =>
    obtain ⟨hbreaks, hoctets⟩ := doubleChars_spec text
    obtain ⟨hall, hsum⟩ := hquotes '"' _ rfl rfl hbreaks
    exact ⟨hall, by rw [written, hsum]; omega⟩

theorem isSimpleKey_spec (h : isSimpleKey text = true) :
    (∀ c ∈ text, isBreak c = false) ∧ octets text ≤ simpleKeyLimit := by
  have hfold (text : List Char) (n : Nat) :
      text.foldl (fun n c => n + c.utf8Size) n = n + octets text := by
    induction text generalizing n with
    | nil => rfl
    | cons c text ih => rw [List.foldl_cons, ih, octets, Nat.add_assoc]
  simp only [isSimpleKey, hfold, Nat.zero_add, Bool.and_eq_true, Bool.not_eq_true',
    List.any_eq_false, Bool.not_eq_true, decide_eq_true_eq] at h
  exact h

/-! ### First characters -/

theorem ne_of_isOpening {c : Char} (h : isOpening c = false) :
    ∀ d ∈ ['#', ',', '[', ']', '{', '}', '&', '*', '!', '|', '>', '\'', '"', '%', '@', '\x60'],
      c ≠ d := by
  simpa [isOpening] using h

/-- The first character of a plain scalar, and what follows it. -/
theorem head_of_plainHolds {c : Char} {words : List Char} (h : plainHolds (c :: words) = true) :
    isSpacing c = false ∧ isOpening c = false ∧
      (c = '?' ∨ c = ':' ∨ c = '-' → gapAhead words = false) := by
  simp only [plainHolds, hasIndicator, opensOther, hasLooseEnd, List.all_cons, List.any_cons,
    List.head?_cons, Option.any_some, Bool.and_eq_true, Bool.not_eq_true', Bool.or_eq_false_iff,
    beq_eq_false_iff_ne] at h
  obtain ⟨⟨⟨⟨hprint, -⟩, hbreak, -⟩, ⟨hspace, -⟩, -⟩, ⟨-, hopening, hgap⟩, -⟩ := h
  refine ⟨?_, hopening, fun hc => ?_⟩
  · have hblank : isBlank c = false := by
      rw [← Bool.not_eq_true, isBlank_iff_of_isPrintable hprint]
      exact hspace
    rw [isSpacing, hblank, hbreak]
    rfl
  · rcases hc with rfl | rfl | rfl
    · exact hgap
    · exact hgap
    · exact hgap

/-- What a scalar begins with begins a token. -/
theorem begins_written (hfits : Fits style text) (indent : Nat) (rest : List Char) :
    Begins (written indent style text ++ rest) := by
  intro c hc
  cases style with
  | plain =>
    obtain ⟨hplain, htext⟩ := hfits
    obtain ⟨d, words, rfl⟩ := List.exists_cons_of_ne_nil htext
    obtain rfl : d = c := Option.some.inj hc
    obtain ⟨hspacing, hopening, -⟩ := head_of_plainHolds hplain
    refine ⟨hspacing, ne_of_isOpening hopening '#' (by simp), ?_⟩
    have hprint : isPrintable d = true := by
      simp only [plainHolds, List.all_cons, Bool.and_eq_true] at hplain
      exact hplain.1.1.1.1
    exact ne_of_isPrintable hprint rfl
  | folded => exact hfits.elim
  | singleQuoted | doubleQuoted | literal =>
    obtain rfl := Option.some.inj hc
    exact ⟨rfl, by decide, by decide⟩

end Scalar

namespace Lexing

open Scalar

variable {s : Lexing} {lexemes : List Lexeme} {indent : Int} {indents : List Int}
  {keyAllowed : Bool} {mark : Mark} {text rest after tail : List Char} {style : Style}
    {k column : Nat}

/-- The reading of a scalar in a style. -/
def scalar (s : Lexing) : Style → Except Fault Lexing
  | .plain => s.plainScalar
  | .singleQuoted => s.quotedScalar .singleQuoted
  | .doubleQuoted => s.quotedScalar .doubleQuoted
  | .literal => s.blockScalar .literal
  | .folded => s.blockScalar .folded

theorem eq_of_isDocumentMark {chars : List Char} (h : isDocumentMark chars = true) :
    ∃ c rest, (c = '-' ∨ c = '.') ∧ chars = c :: c :: c :: rest := by
  unfold isDocumentMark at h
  split at h
  · exact ⟨'-', _, .inl rfl, rfl⟩
  · exact ⟨'.', _, .inr rfl, rfl⟩
  · nomatch h

/-- No document marker stands in front of a plain scalar, which ends at a colon or a break. -/
theorem isDocumentMark_plain (h : plainHolds text = true) (htext : text ≠ [])
    (htail : ∀ d ∈ tail.head?, d = ':' ∨ d = '\n') : isDocumentMark (text ++ tail) = false := by
  simp only [plainHolds, hasIndicator, Bool.and_eq_true, Bool.not_eq_true',
    Bool.or_eq_false_iff] at h
  obtain ⟨-, ⟨⟨hdashes, hdots⟩, -⟩, -⟩ := h
  rw [← Bool.not_eq_true]
  intro hmark
  obtain ⟨c, rest, hc, heq⟩ := eq_of_isDocumentMark hmark
  have hne : tail.head? ≠ some c := by
    intro hd
    rcases htail c hd with rfl | rfl <;> simp at hc
  -- A text of one or two characters would leave a part of the marker to what follows it.
  rcases text with _ | ⟨a, _ | ⟨b, _ | ⟨d, text⟩⟩⟩
  · exact htext rfl
  · obtain ⟨-, rfl⟩ := List.cons.inj heq
    exact hne rfl
  · obtain ⟨-, heq⟩ := List.cons.inj heq
    obtain ⟨-, rfl⟩ := List.cons.inj heq
    exact hne rfl
  · simp only [List.cons_append, List.cons.injEq] at heq
    obtain ⟨rfl, rfl, rfl, -⟩ := heq
    rcases hc with rfl | rfl
    · simp at hdashes
    · simp at hdots

/-- A plain scalar begins where its text does. -/
theorem token_plain {c : Char} {words : List Char} (h : plainHolds (c :: words) = true)
    (htail : ∀ d ∈ tail.head?, d = ':' ∨ d = '\n') (houter : s.outer = [])
    (hcursor : s.cursor.rest = c :: (words ++ tail)) :
    s.token c (words ++ tail) = s.plainScalar := by
  obtain ⟨hspacing, hopening, hgap⟩ := head_of_plainHolds h
  have hmark : s.cursor.atDocumentMark = false := by
    rw [Cursor.atDocumentMark, hcursor]
    exact (congrArg _ (isDocumentMark_plain h (List.cons_ne_nil c words) htail)).trans
      (Bool.and_false _)
  have hflow : s.inFlow = false := by simp [inFlow, houter]
  have hne := ne_of_isOpening hopening
  simp only [List.forall_mem_cons, List.not_mem_nil, false_imp_iff, implies_true, and_true] at hne
  -- Behind a character that may be an indicator the text goes on at once.
  have hahead (hc : c = '?' ∨ c = ':' ∨ c = '-') : gapAhead (words ++ tail) = false := by
    have hwords := hgap hc
    cases words with
    | nil => cases hwords
    | cons d words => exact hwords
  have hstart : startsPlain false c (words ++ tail) = true := by
    unfold startsPlain
    by_cases hdash : c = '-'
    · have hafter := hahead (.inr (.inr hdash))
      subst hdash
      cases hwords : words ++ tail with
      | nil => rfl
      | cons d after =>
        rw [hwords] at hafter
        simp [(Bool.or_eq_false_iff.mp hafter).1]
    · by_cases hkey : c = '?' ∨ c = ':'
      · have hafter := hahead (hkey.imp_right .inl)
        rcases hkey with rfl | rfl <;> simp [hafter]
      · simp [not_or.mp hkey, hdash, hspacing, hne]
  have hindicator (d : Char) (hd : d = '?' ∨ d = ':' ∨ d = '-') :
      (c == d && gapAhead (words ++ tail)) = false := by
    rw [Bool.and_eq_false_iff, beq_eq_false_iff_ne]
    by_cases hc : c = d
    · exact .inr (hahead (hc ▸ hd))
    · exact .inl hc
  simp [token, hmark, hflow, hstart, hne, hindicator]

/-- Where a written scalar begins, a scalar of its style is read. -/
theorem take_eq_scalar (tail : List Char) (hfits : Fits style text)
    (htail : style = .plain → ∀ d ∈ tail.head?, d = ':' ∨ d = '\n')
    (houter : s.outer = []) (hcursor : s.cursor.rest = written column style text ++ tail) :
    s.take = s.scalar style >>= dropStale := by
  have htake {c : Char} {after : List Char} (hrest : s.cursor.rest = c :: after)
      (htoken : s.token c after = s.scalar style) : s.take = s.scalar style >>= dropStale := by
    rw [take, hrest, ← htoken]
  have hflow : s.inFlow = false := by simp [inFlow, houter]
  cases style with
  | plain =>
    obtain ⟨hplain, htext⟩ := hfits
    obtain ⟨c, words, rfl⟩ := List.exists_cons_of_ne_nil htext
    exact htake hcursor (token_plain hplain (htail rfl) houter hcursor)
  | folded => exact hfits.elim
  | singleQuoted =>
    refine htake hcursor ?_
    simp [token, scalar, Cursor.atDocumentMark, hcursor, written, isDocumentMark, hflow]
  | doubleQuoted =>
    refine htake hcursor ?_
    simp [token, scalar, Cursor.atDocumentMark, hcursor, written, isDocumentMark, hflow]
  | literal =>
    refine htake hcursor ?_
    simp [token, scalar, Cursor.atDocumentMark, hcursor, written, isDocumentMark, hflow]

/-- A scalar in quotes is read up to its closing quote. -/
theorem scalar_quoted (column : Nat) (hquoted : style = .singleQuoted ∨ style = .doubleQuoted)
    (hfits : Fits style text) (hbroken : text.any isBreak = true → 0 < column)
    (hafter : after.head? ≠ some '\'') :
    (resting ⟨written column style text ++ after, mark⟩ lexemes indent indents keyAllowed).scalar
        style =
      .ok { resting ⟨after, mark.across (written column style text)⟩
          (⟨.scalar style text, mark, mark.across (written column style text)⟩ :: lexemes) indent
          indents false with
        pending := keyHere lexemes indent keyAllowed mark } := by
  rcases hquoted with rfl | rfl
  · have hscan := Quoted.single_written mark after _ hfits.1 hfits.2 hbroken hafter
    rw [scalar, quotedScalar, savePending_resting]
    change (Quoted.single ⟨written column .singleQuoted text ++ after, mark⟩ >>= _) = _
    rw [hscan]
    rfl
  · have hscan := Quoted.double_written mark after text column
    rw [scalar, quotedScalar, savePending_resting]
    change (Quoted.double ⟨written column .doubleQuoted text ++ after, mark⟩ >>= _) = _
    rw [hscan]
    rfl

/-- A plain scalar in front of a colon, or one in quotes, on its line. -/
theorem scalar_line (hstyle : style ≠ .literal) (hfits : Fits style text)
    (hline : ∀ c ∈ text, isBreak c = false) (hafter : gapAhead after = true)
    (hindent : indent ≤ mark.column) :
    (resting ⟨written column style text ++ ':' :: after, mark⟩ lexemes indent indents true).scalar
        style =
      .ok (atColon after (mark.across (written column style text)) mark
        ⟨.scalar style text, mark, mark.across (written column style text)⟩ lexemes indent
        indents) := by
  cases style with
  | plain =>
    have hscan := Plain.scan_key hfits.1 hfits.2 hafter hindent
    rw [scalar, plainScalar, savePending_resting]
    change (Plain.scan false indent ⟨text ++ ':' :: after, mark⟩ >>= _) = _
    rw [hscan]
    rfl
  | literal => exact absurd rfl hstyle
  | folded => exact hfits.elim
  | singleQuoted | doubleQuoted =>
    have hbroken : text.any isBreak = true → 0 < column := by
      intro h
      obtain ⟨c, hc, hbreak⟩ := List.any_eq_true.mp h
      rw [hline c hc] at hbreak
      nomatch hbreak
    exact scalar_quoted column (by simp) hfits hbroken (by simp)

/-- A key on its line is read up to the colon, and then over it. -/
theorem take_key (hsimple : isSimpleKey text = true) (hafter : gapAhead after = true)
    (hindent : indent ≤ mark.column) :
    ∃ t stop, take (resting ⟨written column (styleOf text) text ++ ':' :: after, mark⟩ lexemes
        indent indents true) = .ok t ∧ t.ended = false ∧ mark.column ≤ stop.column ∧
      t.step = .ok (resting ⟨after, stop.next ':'⟩
        (⟨.value, stop, stop.next ':'⟩ :: ⟨.scalar (styleOf text) text, mark, stop⟩ ::
          ⟨.key, mark, mark⟩ :: (opening indent mark .blockMapping ++ lexemes))
        mark.column (around indent mark indents) false) := by
  obtain ⟨hline, hlength⟩ := isSimpleKey_spec hsimple
  have hfits := fits_styleOf text
  have hstyle := styleOf_ne_literal hline
  obtain ⟨hbreaks, hoctets⟩ := written_line hstyle hfits hline column
  generalize styleOf text = style at hfits hstyle hbreaks hoctets
  have hcolumn : mark.column ≤ (mark.across (written column style text)).column := by
    rw [Mark.column_across hbreaks]
    exact Nat.le_add_right _ _
  generalize hs : atColon after (mark.across (written column style text)) mark
    ⟨.scalar style text, mark, mark.across (written column style text)⟩ lexemes indent indents = s
  have hcursor : s.cursor = ⟨':' :: after, mark.across (written column style text)⟩ := by
    rw [← hs]
    rfl
  -- What is written for the key is short enough for a key.
  have hfresh : s.dropStale = .ok s := by
    refine dropStale_of_fresh
      (by rw [← hs]; rfl) (by rw [← hs]; rfl) ?_ ?_
    · rw [Lexing.mark, hcursor]
      exact (Mark.line_across hbreaks mark).symm
    · rw [Lexing.mark, hcursor]
      change (mark.across (written column style text)).offset ≤ mark.offset + 1024
      rw [Mark.offset_across]
      simp only [simpleKeyLimit] at hlength
      omega
  have hbegins : Begins (':' :: after) := by
    intro c hc
    obtain rfl : ':' = c := Option.some.inj hc
    exact ⟨rfl, by decide, by decide⟩
  have hin : s.indent ≤ s.mark.column := by
    rw [← hs]
    exact Int.le_trans hindent (Int.ofNat_le.mpr hcolumn)
  have hprepare : s.prepare = .ok s := by
    refine (prepare_spaces (k := 0) (r := s) hcursor hbegins ?_).trans ?_
    · rw [← hs] at hfresh ⊢
      exact hfresh
    · rw [closeBlocks_of_le hin]
  refine ⟨s, mark.across (written column style text), ?_, by rw [← hs]; rfl, hcolumn, ?_⟩
  · rw [take_eq_scalar (':' :: after) hfits
        (fun _ d hd => .inl (Option.some.inj hd).symm) rfl rfl,
      scalar_line hstyle hfits hline hafter hindent, ok_bind, hs]
    exact hfresh
  · rw [step_of_prepare hprepare, ← hs]
    exact take_keyColon hafter hindent

/-- A scalar at the end of its line is read up to the next token. -/
theorem reaches_scalar (mark : Mark) (k : Nat) (hfits : Fits style text)
    (hcolumn : (max indent 0).toNat = column)
    (hindent : indent < mark.column) (hk : k ≤ column) (hroot : 0 ≤ indent ∨ rest = [])
    (hrest : Begins rest) :
    ∃ s stop, (resting ⟨scalarLines (column + indentation) style text ++ (spaces k ++ rest), mark⟩
        lexemes indent indents keyAllowed).take = .ok s ∧
      Reaches s (resting
        ⟨rest, mark.across (scalarLines (column + indentation) style text ++ spaces k)⟩
        (⟨.scalar style text, mark, stop⟩ :: lexemes) indent indents true) := by
  have hrequired := keyHere_spec lexemes keyAllowed hindent
  generalize hpending : keyHere lexemes indent keyAllowed mark = pending at hrequired
  have hquoted (stop : Mark) (hstop : mark.line ≤ stop.line) :=
    dropStale_reaches_line _ (⟨.scalar style text, mark, stop⟩ :: lexemes) indent indents false k
      (fun key hkey => ⟨(hrequired key hkey).1, (hrequired key hkey).2 ▸ hstop⟩) hrest
  -- Plain scalars and blocks end on the next token.
  have hnext (stop : Mark) (hstop : mark.line < stop.line) : ∃ s,
      dropStale { resting ⟨rest, stop⟩ (⟨.scalar style text, mark, stop⟩ :: lexemes) indent indents
        true with pending := pending } = .ok s ∧
      Reaches s (resting ⟨rest, stop⟩ (⟨.scalar style text, mark, stop⟩ :: lexemes) indent indents
        true) := by
    refine ⟨_, dropStale_earlier _ _ _ _ fun key hkey => ?_, reaches_spaces _ _ _ _ _ 0 hrest⟩
    exact ⟨(hrequired key hkey).1, (hrequired key hkey).2 ▸ hstop⟩
  have hline (hend : endsLine style text = false) (a : List Char) :
      scalarLines (column + indentation) style text ++ a =
        written (column + indentation) style text ++ '\n' :: a := by
    simp [scalarLines, hend]
  have htail : ∀ d ∈ ('\n' :: (spaces k ++ rest)).head?, d = ':' ∨ d = '\n' :=
    fun d hd => .inr (Option.some.inj hd).symm
  cases style with
  | plain =>
    have hout : (k : Int) ≤ indent ∨ rest = [] := hroot.imp_left fun h => by omega
    have hscan := Plain.scan_line hfits.1 hfits.2 (Int.le_of_lt hindent) hout hrest
    have hstop : mark.line < (mark.across (text ++ '\n' :: spaces k)).line := by
      rw [Mark.across_append, Mark.across_break rfl]
      exact Nat.lt_of_le_of_lt (Mark.line_le_across mark text)
        (Mark.line_le_across ((mark.across text).newline '\n') (spaces k))
    obtain ⟨s, hdrop, hreach⟩ := hnext _ hstop
    refine ⟨s, _, ?_, hline rfl (spaces k) ▸ hreach⟩
    rw [take_eq_scalar _ hfits (fun _ => htail) rfl (hline rfl _), scalar, plainScalar,
      savePending_resting,
      ok_bind, hline rfl]
    change (Plain.scan false indent ⟨text ++ '\n' :: (spaces k ++ rest), mark⟩ >>= _) >>= _ = _
    rw [hscan, hpending]
    exact hdrop
  | folded => exact hfits.elim
  | singleQuoted | doubleQuoted =>
    obtain ⟨s, hdrop, hreach⟩ := hquoted _ (Mark.line_le_across mark _)
    rw [← Mark.across_append, ← hline rfl] at hreach
    refine ⟨s, _, ?_, hreach⟩
    rw [take_eq_scalar _ hfits (fun _ => htail) rfl (hline rfl _), hline rfl,
      scalar_quoted (column + indentation) (by simp) hfits (fun _ => Nat.succ_pos _) (by simp),
      hpending, ok_bind]
    exact hdrop
  | literal =>
    have hscan := Block.scan_written mark hfits.1 hfits.2 hcolumn hk hrest
    have hrest' : scalarLines (column + indentation) .literal text ++ (spaces k ++ rest) =
        written (column + indentation) .literal text ++
          ((if endsLine .literal text then [] else ['\n']) ++ (spaces k ++ rest)) :=
      List.append_assoc _ _ _
    refine ⟨_, mark.across (scalarLines (column + indentation) .literal text ++ spaces k), ?_,
      reaches_spaces _ _ _ _ _ 0 hrest⟩
    rw [take_eq_scalar _ hfits (fun h => nomatch h) rfl hrest']
    change (Block.scan false indent ⟨scalarLines (column + indentation) .literal text ++
      (spaces k ++ rest), mark⟩ >>= _) >>= _ = _
    rw [scalarLines, hscan]
    rfl

end Lexing

end CollectorTemplate.Yaml
