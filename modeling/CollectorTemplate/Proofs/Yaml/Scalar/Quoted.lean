/-
Scalars in quotes read back.

A text that was written in quotes is read as the text it was written from, and the reader stands
right behind the closing quote.

* `Quoted.single_written` : in single quotes;
* `Quoted.double_written` : in double quotes, where each character may be an escape.
-/
import CollectorTemplate.Proofs.Yaml.Place
import Mathlib.Algebra.Group.Nat.Defs

namespace CollectorTemplate.Yaml

open Scalar

namespace Quoted

variable {start mark : Mark} {c : Char} {rest after : List Char} {p : Partial}

/-- The text with the white space that was read since, latest character first. -/
def Partial.content (p : Partial) : List Char := p.gap.text.reverse ++ p.text

theorem content_push (p : Partial) (c : Char) : (p.push c).content = c :: p.content := rfl

/-- The white space read last is what the character `before` says: a break that is no LF, perhaps
with others before it, or blanks, or nothing. -/
structure Partial.Follows (p : Partial) (before : Char) : Prop where
  broken : p.gap.broken = isBreak before
  first : isBreak before = true → p.gap.first ≠ some '\n'
  blanks : isBreak before = false → p.gap.blanks ≠ [] → before = ' '

/-- A break that is no LF stays in the text, if no blanks come before it. -/
theorem Partial.Follows.newline {before : Char} (h : p.Follows before) (hc : breakText c = c)
    (hbreak : isBreak c = true) (hlf : c ≠ '\n') (hbefore : before ≠ ' ') :
    Partial.Follows { p with gap := p.gap.newline c } c ∧
      Partial.content { p with gap := p.gap.newline c } = c :: p.content := by
  cases hbroken : isBreak before with
  | false =>
    have hopen : p.gap.broken = false := h.broken.trans hbroken
    have hnone : p.gap.blanks = [] := by
      by_contra hblanks
      exact hbefore (h.blanks hbroken hblanks)
    refine ⟨⟨?_, fun _ => ?_, fun h => ?_⟩, ?_⟩
    · simp [Gap.newline, hopen, hbreak]
    · simpa [Gap.newline, hopen, hc] using hlf
    · rw [hbreak] at h
      nomatch h
    · simp [Partial.content, Gap.text, Gap.newline, hopen, hnone, hc, hlf]
  | true =>
    have hopen : p.gap.broken = true := h.broken.trans hbroken
    refine ⟨⟨?_, fun _ => ?_, fun h => ?_⟩, ?_⟩
    · simp [Gap.newline, hopen, hbreak]
    · simpa [Gap.newline, hopen] using h.first hbroken
    · rw [hbreak] at h
      nomatch h
    · simp [Partial.content, Gap.text, Gap.newline, hopen, h.first hbroken, hc]

theorem Partial.Follows.blank {before : Char} (h : p.Follows before)
    (hbefore : isBreak before = false) :
    Partial.Follows { p with gap := p.gap.blank ' ' } ' ' ∧
      Partial.content { p with gap := p.gap.blank ' ' } = ' ' :: p.content := by
  have hopen : p.gap.broken = false := h.broken.trans hbefore
  refine ⟨⟨?_, (fun h => nomatch h), fun _ _ => rfl⟩, ?_⟩
  · simp [Gap.blank, hopen, isBreak]
  · simp [Partial.content, Gap.text, Gap.blank, hopen]

theorem follows_push (p : Partial) {c : Char} (hbreak : isBreak c = false) :
    (p.push c).Follows c :=
  ⟨hbreak.symm, fun h => absurd (hbreak.symm.trans h) Bool.false_ne_true,
    fun _ h => absurd rfl h⟩

/-- The step of the loop at any character that is neither a CR nor a quote before another. -/
theorem singleFrom_cons (hc : c ≠ '\r') (hquote : c = '\'' → rest.head? ≠ some '\'') :
    singleFrom start (c :: rest) mark p =
      if isBreak c then singleFrom start rest (mark.newline c) { p with gap := p.gap.newline c }
      else if isBlank c then singleFrom start rest (mark.next c) { p with gap := p.gap.blank c }
      else if mark.column == 0 && isDocumentMark (c :: rest) then
        .error (fault .documentMark mark start)
      else if c = '\'' then .ok (p.settle, ⟨rest, mark.next c⟩)
      else singleFrom start rest (mark.next c) (p.push c) := by
  rw [singleFrom]
  · rintro _ rfl
    exact absurd rfl hc
  · rintro _ h rfl
    exact absurd rfl (hquote h)

/-- The step of the loop at a character of a line that is no quote. -/
theorem singleFrom_inLine (hcr : c ≠ '\r') (hbreak : isBreak c = false) (hquote : c ≠ '\'')
    (hin : 0 < mark.column) :
    singleFrom start (c :: rest) mark p =
      if isBlank c then singleFrom start rest (mark.next c) { p with gap := p.gap.blank c }
      else singleFrom start rest (mark.next c) (p.push c) := by
  rw [singleFrom_cons hcr (fun h => absurd h hquote), if_neg (by simp [hbreak])]
  simp [hin.ne', hquote]

/-- Behind a line break, blanks do not count. -/
theorem singleFrom_spaces (hbroken : p.gap.broken = true) (k : Nat) :
    singleFrom start (spaces k ++ rest) mark p =
      singleFrom start rest (mark.across (spaces k)) p := by
  induction k generalizing mark with
  | zero => rfl
  | succ k ih =>
    have hsame : { p with gap := p.gap.blank ' ' } = p := by simp [Gap.blank, hbroken]
    rw [spaces, List.replicate_succ, List.cons_append,
      singleFrom_cons (by decide) (fun h => absurd h (by decide)), if_neg (by decide),
      if_pos (show isBlank ' ' = true from rfl), hsame, Mark.across_other rfl]
    exact ih

/-- The indentation of a new line is read over, and what follows it is not in the first column. -/
theorem singleFrom_lead {fresh : Bool} {indent : Nat} (hbroken : p.gap.broken = fresh)
    (hcolumn : fresh = false → 0 < mark.column) (hindent : fresh = true → 0 < indent) :
    ∃ lead, (if fresh then spaces indent else []) = lead ∧ 0 < (mark.across lead).column ∧
      ∀ rest, singleFrom start (lead ++ rest) mark p =
        singleFrom start rest (mark.across lead) p := by
  cases fresh with
  | false => exact ⟨[], rfl, hcolumn rfl, fun _ => rfl⟩
  | true =>
    refine ⟨spaces indent, rfl, ?_, fun rest => singleFrom_spaces hbroken indent⟩
    rw [Mark.column_across fun c hc => by rw [List.eq_of_mem_replicate hc]; rfl, spaces,
      List.length_replicate]
    exact Nat.add_pos_right _ (hindent rfl)

theorem anyPair_cons {q : Char → Char → Bool} {a b : Char} {rest : List Char} :
    anyPair q (a :: b :: rest) = (q a b || anyPair q (b :: rest)) := rfl

/-- One character of the text behind the character `before`, with the indentation in front of it if
it begins a line. -/
theorem singleFrom_char (start : Mark) {indent : Nat} {before : Char} (text : List Char)
    (hprint : isPrintable c = true) (hlf : c ≠ '\n')
    (hspace : (before == ' ' && isBreak c) = false) (hbreak : (isBreak before && c == ' ') = false)
    (hp : p.Follows before) (hcolumn : isBreak before = false → 0 < mark.column)
    (hindent : isBreak before = true → 0 < indent) :
    ∃ lead q, singleLines indent (isBreak before) (c :: text) =
        lead ++ singleLines indent (isBreak c) text ∧
      (∀ rest, singleFrom start (lead ++ rest) mark p =
        singleFrom start rest (mark.across lead) q) ∧
      q.content = c :: p.content ∧ q.Follows c ∧
      (isBreak c = false → 0 < (mark.across lead).column) := by
  have hcr : c ≠ '\r' := ne_of_isPrintable hprint rfl
  cases hcb : isBreak c with
  | true =>
    have hquote : c ≠ '\'' := by
      rintro rfl
      nomatch hcb
    have hnone : before ≠ ' ' := by
      rintro rfl
      simp [hcb] at hspace
    obtain ⟨hfollows, hcontent⟩ :=
      hp.newline (breakText_of_isPrintable hprint hcb) hcb hlf hnone
    refine ⟨[c], _, by simp [singleLines, hcb], fun rest => ?_, hcontent, hfollows,
      fun h => nomatch h⟩
    rw [List.singleton_append, singleFrom_cons hcr (fun h => absurd h hquote), if_pos hcb,
      Mark.across_break hcb]
    rfl
  | false =>
    obtain ⟨lead, hlead, hin, (hscan : ∀ rest, singleFrom start (lead ++ rest) mark p = _)⟩ :=
      singleFrom_lead hp.broken hcolumn hindent
    by_cases hquote : c = '\''
    · -- A quote is written twice.
      subst hquote
      refine ⟨lead ++ ['\'', '\''], p.push '\'', by simp [singleLines, hcb, hlead],
        fun rest => ?_, content_push p _, follows_push p hcb, fun _ => ?_⟩
      · rw [List.append_assoc, hscan, Mark.across_append, List.cons_append, List.singleton_append,
          singleFrom]
        rfl
      · rw [Mark.across_append]
        exact Nat.succ_pos _
    · have hcolumn' : 0 < (mark.across (lead ++ [c])).column := by
        rw [Mark.across_append, Mark.across_other hcb]
        exact Nat.succ_pos _
      have hstep (rest : List Char) :
          singleFrom start ((lead ++ [c]) ++ rest) mark p =
            if isBlank c then
              singleFrom start rest (mark.across (lead ++ [c])) { p with gap := p.gap.blank c }
            else singleFrom start rest (mark.across (lead ++ [c])) (p.push c) := by
        rw [List.append_assoc, hscan, List.singleton_append,
          singleFrom_inLine hcr hcb hquote hin, Mark.across_append, Mark.across_other hcb]
        rfl
      have hlines : singleLines indent (isBreak before) (c :: text) =
          (lead ++ [c]) ++ singleLines indent false text := by
        simp [singleLines, hcb, hlead, hquote]
      cases hblank : isBlank c with
      | true =>
        obtain rfl := (isBlank_iff_of_isPrintable hprint).mp hblank
        obtain ⟨hfollows, hcontent⟩ := hp.blank (by simpa using hbreak)
        exact ⟨_, _, hlines, fun rest => (hstep rest).trans (if_pos rfl), hcontent, hfollows,
          fun _ => hcolumn'⟩
      | false =>
        exact ⟨_, _, hlines, fun rest => (hstep rest).trans (if_neg (by simp [hblank])),
          content_push p c, follows_push p hcb, fun _ => hcolumn'⟩

/-- What was written in single quotes is read up to the closing quote, behind the character
`before`. -/
theorem singleFrom_lines (start mark : Mark) {indent : Nat} {before : Char} {text : List Char}
    (hprint : ∀ c ∈ text, isPrintable c = true) (hlf : ∀ c ∈ text, c ≠ '\n')
    (hbefore : hasSpaceBeforeBreak (before :: text) = false)
    (hafter : hasSpaceAfterBreak (before :: text) = false) (hp : p.Follows before)
    (hcolumn : isBreak before = false → 0 < mark.column)
    (hindent : isBreak before = true ∨ text.any isBreak = true → 0 < indent)
    (hnext : after.head? ≠ some '\'') :
    singleFrom start (singleLines indent (isBreak before) text ++ '\'' :: after) mark p =
      .ok (⟨text.reverse ++ p.content, {}⟩,
        ⟨after, mark.across (singleLines indent (isBreak before) text ++ ['\''])⟩) := by
  induction text generalizing before mark p with
  | nil =>
    obtain ⟨lead, hlead, hin, hscan⟩ := singleFrom_lead hp.broken hcolumn
      (fun h => hindent (.inl h))
    rw [singleLines, hlead, hscan, singleFrom_cons (by decide) (fun _ => hnext),
      if_neg (by decide), if_neg (by decide), if_neg (by simp [hin.ne']), if_pos rfl,
      Mark.across_append]
    rfl
  | cons c text ih =>
    obtain ⟨hc, htext⟩ := List.forall_mem_cons.mp hprint
    obtain ⟨hclf, htextlf⟩ := List.forall_mem_cons.mp hlf
    obtain ⟨hspace, hbefore⟩ := Bool.or_eq_false_iff.mp hbefore
    obtain ⟨hbreak, hafter⟩ := Bool.or_eq_false_iff.mp hafter
    obtain ⟨lead, q, hlines, hscan, hcontent, hfollows, hcolumn⟩ :=
      singleFrom_char start text hc hclf hspace hbreak hp hcolumn (fun h => hindent (.inl h))
    have hmore : isBreak c = true ∨ text.any isBreak = true → 0 < indent :=
      fun h => hindent (.inr (by simpa using h))
    rw [hlines, List.append_assoc, hscan, ih _ htext htextlf hbefore hafter hfollows hcolumn hmore,
      hcontent, List.append_assoc, ← Mark.across_append, List.reverse_cons, List.append_assoc]
    rfl

/-- A text that single quotes can hold is read back from between them. -/
theorem single_written (mark : Mark) (after : List Char) (indent : Nat) {text : List Char}
    (htext : singleHolds text = true)
    (hlf : text.contains '\n' = false) (hindent : text.any isBreak = true → 0 < indent)
    (hnext : after.head? ≠ some '\'') :
    single ⟨written indent .singleQuoted text ++ after, mark⟩ =
      .ok (text, ⟨after, mark.across (written indent .singleQuoted text)⟩) := by
  simp only [singleHolds, Bool.and_eq_true, Bool.not_eq_true', List.all_eq_true] at htext
  obtain ⟨⟨hprint, hbefore⟩, hafter⟩ := htext
  have hlf : ∀ c ∈ text, c ≠ '\n' := by
    rintro c hc rfl
    rw [List.contains_iff_mem.mpr hc] at hlf
    nomatch hlf
  -- The opening quote is neither a space nor a break, so that it may come before the text.
  have hpair : ∀ {q : Char → Char → Bool}, (∀ b, q '\'' b = false) → anyPair q text = false →
      anyPair q ('\'' :: text) = false := by
    intro q hq h
    cases text with
    | nil => rfl
    | cons c text => rw [anyPair_cons, hq c, h, Bool.or_false]
  have hscan := singleFrom_lines mark (mark.forward 1) (p := {}) hprint hlf
    (hpair (fun _ => rfl) hbefore)
    (hpair (fun _ => rfl) hafter) ⟨rfl, (fun h => nomatch h), fun _ h => absurd rfl h⟩
    (fun _ => Nat.succ_pos _) (fun h => hindent (h.resolve_left Bool.false_ne_true)) hnext
  have hquote : isBreak '\'' = false := rfl
  rw [hquote] at hscan
  simp only [single, written, List.cons_append, List.append_assoc, List.nil_append, List.tail_cons,
    hscan, Mark.across_other hquote]
  simp [bind, Except.bind, pure, Except.pure, Partial.content, Gap.text]
  rfl

/-! ### Escapes -/

theorem hexDigit?_hexDigit : ∀ d < 16, Text.hexDigit? (hexDigit d) = some d := by decide

theorem hexDigit_spec : ∀ d < 16, isBreak (hexDigit d) = false ∧ (hexDigit d).utf8Size = 1 := by
  decide

theorem hexValue?_hexDigits (width n : Nat) :
    Text.hexValue? (hexDigits width n) = some (n % 16 ^ width) := by
  induction width generalizing n with
  | zero => simp [hexDigits, Text.hexValue?, Nat.mod_one]
  | succ width ih =>
    have hfold : Text.hexValue? (hexDigits width (n / 16)) = some (n / 16 % 16 ^ width) := ih _
    rw [hexDigits, Text.hexValue?, List.foldl_append]
    rw [Text.hexValue?] at hfold
    rw [hfold, List.foldl_cons, List.foldl_nil, hexDigit?_hexDigit _ (Nat.mod_lt n (by decide))]
    simp only [Option.bind_eq_bind, Option.bind_some, Option.pure_def, Option.some.injEq]
    rw [Nat.pow_succ', Nat.mod_mul, Nat.add_comm]

theorem length_hexDigits (width n : Nat) : (hexDigits width n).length = width := by
  induction width generalizing n with
  | zero => rfl
  | succ width ih => rw [hexDigits, List.length_append, ih]; rfl

theorem hexDigits_spec (width n : Nat) :
    ∀ c ∈ hexDigits width n, isBreak c = false ∧ c.utf8Size = 1 := by
  induction width generalizing n with
  | zero => exact fun c hc => nomatch hc
  | succ width ih =>
    rw [hexDigits]
    intro c hc
    rcases List.mem_append.mp hc with hc | hc
    · exact ih _ c hc
    · rw [List.mem_singleton.mp hc]
      exact hexDigit_spec _ (Nat.mod_lt n (by decide))

/-- A backslash, a letter and digits are no breaks, and of one octet each. -/
theorem escapeDigits_spec (letter : Char)
    (hletter : isBreak letter = false ∧ letter.utf8Size = 1) (width n : Nat) :
    ∀ c ∈ '\\' :: letter :: hexDigits width n, isBreak c = false ∧ c.utf8Size = 1 := by
  simpa [hletter] using ⟨⟨rfl, rfl⟩, hexDigits_spec width n⟩

theorem codePoint?_toNat (c : Char) : Text.codePoint? c.toNat = some c := by
  have hvalid : c.toNat < 0xd800 ∨ (0xdfff < c.toNat ∧ c.toNat < 0x110000) := c.valid
  rw [Text.codePoint?, if_pos hvalid, Char.ofNat_toNat]

/-- The digits of a character read back as the character. -/
theorem escapedCode_hexDigits (start mark : Mark) (c : Char) (width : Nat)
    (h : c.toNat < 16 ^ width) :
    escapedCode (hexDigits width c.toNat) mark start = .ok c := by
  rw [escapedCode, hexValue?_hexDigits, Nat.mod_eq_of_lt h]
  simp only [codePoint?_toNat]

/-- The letter behind the backslash reads back as the character it was written for. -/
theorem escape?_of_escapeLetter? {letter : Char} (h : escapeLetter? c = some letter) :
    escape? letter = some c ∧ letter.utf8Size = 1 ∧
      letter ∉ ['\r', '\n', '\u0085', '\u2028', '\u2029', 'x', 'u', 'U'] := by
  unfold escapeLetter? at h
  split at h
  case h_15 => nomatch h
  all_goals
    obtain rfl := Option.some.inj h
    exact ⟨rfl, rfl, by decide⟩

/-- A character without a letter is no break, no quote and no backslash. -/
theorem ne_of_escapeLetter? {d : Char} (h : escapeLetter? c = none)
    (hd : (escapeLetter? d).isSome = true) : c ≠ d := by
  rintro rfl
  rw [h] at hd
  nomatch hd

/-- The step of the loop at a letter behind a backslash. -/
theorem doubleFrom_letter {letter : Char}
    (h : letter ∉ ['\r', '\n', '\u0085', '\u2028', '\u2029', 'x', 'u', 'U'])
    (hc : escape? letter = some c) :
    doubleFrom start ('\\' :: letter :: rest) mark p =
      doubleFrom start rest (mark.forward 2) (p.push c) := by
  simp only [List.mem_cons, List.not_mem_nil, or_false, not_or] at h
  obtain ⟨hcr, hlf, hnel, hls, hps, hx, hu, hU⟩ := h
  rw [doubleFrom]
  · rw [if_neg (by simp [isBreak, hcr, hlf, hnel, hls, hps]), if_neg (by simp [hx, hu, hU]), hc]
  · exact fun _ h => absurd h hcr
  · exact fun _ _ _ h => absurd h hx
  · exact fun _ _ _ _ _ h => absurd h hu
  · exact fun _ _ _ _ _ _ _ _ _ h => absurd h hU

/-- The step of the loop at any character that is neither a CR nor a backslash. -/
theorem doubleFrom_cons (hcr : c ≠ '\r') (hslash : c ≠ '\\') :
    doubleFrom start (c :: rest) mark p =
      if isBreak c then doubleFrom start rest (mark.newline c) { p with gap := p.gap.newline c }
      else if isBlank c then doubleFrom start rest (mark.next c) { p with gap := p.gap.blank c }
      else if mark.column == 0 && isDocumentMark (c :: rest) then
        .error (fault .documentMark mark start)
      else if c = '"' then .ok (p.settle, ⟨rest, mark.next c⟩)
      else doubleFrom start rest (mark.next c) (p.push c) := by
  rw [doubleFrom]
  · rw [if_neg hslash]
  all_goals grind

/-- Two digits behind `\\x` are read as the character they write. -/
theorem doubleFrom_twoDigits (h : c.toNat ≤ 0xff) :
    doubleFrom start ('\\' :: 'x' :: hexDigits 2 c.toNat ++ rest) mark p =
      doubleFrom start rest (mark.forward 4) (p.push c) := by
  have hdigits := escapedCode_hexDigits start (mark.forward 2) c 2 (by omega)
  change (escapedCode (hexDigits 2 c.toNat) (mark.forward 2) start >>= _) = _
  rw [hdigits]
  rfl

/-- Four digits behind `\\u` are read as the character they write. -/
theorem doubleFrom_fourDigits (h : c.toNat ≤ 0xffff) :
    doubleFrom start ('\\' :: 'u' :: hexDigits 4 c.toNat ++ rest) mark p =
      doubleFrom start rest (mark.forward 6) (p.push c) := by
  have hdigits := escapedCode_hexDigits start (mark.forward 2) c 4 (by omega)
  change (escapedCode (hexDigits 4 c.toNat) (mark.forward 2) start >>= _) = _
  rw [hdigits]
  rfl

/-- The forms in which a character is written in double quotes. -/
theorem doubleChar_cases (c : Char) :
    (∃ letter, escapeLetter? c = some letter ∧ doubleChar c = ['\\', letter]) ∨
    (escapeLetter? c = none ∧ isPrintable c = true ∧ doubleChar c = [c]) ∨
    (c.toNat ≤ 0xff ∧ doubleChar c = '\\' :: 'x' :: hexDigits 2 c.toNat) ∨
    (0xff < c.toNat ∧ c.toNat ≤ 0xffff ∧ doubleChar c = '\\' :: 'u' :: hexDigits 4 c.toNat) := by
  unfold doubleChar
  cases hletter : escapeLetter? c with
  | some letter => exact .inl ⟨letter, rfl, rfl⟩
  | none =>
    cases hprint : isPrintable c with
    | true => exact .inr (.inl ⟨rfl, rfl, rfl⟩)
    | false =>
      have hn : c.toNat ≤ 0xffff := by
        by_contra h
        have : 0x10000 ≤ c.toNat := by omega
        simp [isPrintable, this] at hprint
      by_cases hsmall : c.toNat ≤ 0xff
      · exact .inr (.inr (.inl ⟨hsmall, by simp [hsmall]⟩))
      · exact .inr (.inr (.inr ⟨by omega, hn, by simp [hsmall, hn]⟩))

/-- What a character is written with in double quotes holds no break, and is at most four times as
long. -/
theorem doubleChar_spec (c : Char) :
    (∀ d ∈ doubleChar c, isBreak d = false) ∧ octets (doubleChar c) ≤ 4 * c.utf8Size := by
  have hpos := c.utf8Size_pos
  rcases doubleChar_cases c with ⟨letter, h, hc⟩ | ⟨hnone, -, hc⟩ | ⟨-, hc⟩ | ⟨hlow, -, hc⟩
  · obtain ⟨-, hsize, hplain⟩ := escape?_of_escapeLetter? h
    rw [hc]
    refine ⟨?_, ?_⟩
    · simp only [List.mem_cons, List.not_mem_nil, or_false, not_or] at hplain
      rintro d hd
      rcases List.mem_cons.mp hd with rfl | hd
      · rfl
      · rw [List.mem_singleton.mp hd]
        simp [isBreak, hplain]
    · rw [octets_of_ascii (by simp [hsize, show ('\\').utf8Size = 1 from rfl])]
      simp only [List.length_cons, List.length_nil]
      omega
  · rw [hc]
    refine ⟨fun d hd => ?_, by simp [octets]; omega⟩
    rw [List.mem_singleton.mp hd]
    have hne := fun d => ne_of_escapeLetter? (d := d) hnone
    simp [isBreak, hne '\r' rfl, hne '\n' rfl, hne '\u0085' rfl, hne '\u2028' rfl, hne '\u2029' rfl]
  · have hall := escapeDigits_spec 'x' ⟨rfl, rfl⟩ 2 c.toNat
    rw [hc]
    refine ⟨fun d hd => (hall d hd).1, ?_⟩
    rw [octets_of_ascii fun d hd => (hall d hd).2]
    simp only [List.length_cons, length_hexDigits]
    omega
  · have hall := escapeDigits_spec 'u' ⟨rfl, rfl⟩ 4 c.toNat
    have hsize : c.utf8Size ≠ 1 := by
      rw [ne_eq, Char.utf8Size_eq_one_iff, UInt32.le_iff_toNat_le]
      exact fun h => absurd (Nat.lt_of_lt_of_le hlow h) (by decide)
    rw [hc]
    refine ⟨fun d hd => (hall d hd).1, ?_⟩
    rw [octets_of_ascii fun d hd => (hall d hd).2]
    simp only [List.length_cons, length_hexDigits]
    omega

/-- A written character is read back. -/
theorem doubleFrom_char (hbroken : p.gap.broken = false) (hcolumn : 0 < mark.column) (c : Char) :
    ∃ q, doubleFrom start (doubleChar c ++ rest) mark p =
        doubleFrom start rest (mark.across (doubleChar c)) q ∧
      q.gap.broken = false ∧ q.content = c :: p.content := by
  rcases doubleChar_cases c with ⟨letter, h, hc⟩ | ⟨hnone, hprint, hc⟩ | ⟨hn, hc⟩ | ⟨-, hn, hc⟩
  · obtain ⟨hescape, hsize, hletter⟩ := escape?_of_escapeLetter? h
    have hbreak : isBreak letter = false := by
      simp only [List.mem_cons, List.not_mem_nil, or_false, not_or] at hletter
      simp [isBreak, hletter]
    refine ⟨p.push c, ?_, rfl, rfl⟩
    rw [hc, List.cons_append, List.cons_append, List.nil_append, doubleFrom_letter hletter hescape,
      ← Mark.forward_eq_across (by simpa [hsize, hbreak] using ⟨rfl, rfl⟩)]
    rfl
  · have hne := fun d => ne_of_escapeLetter? (d := d) hnone
    have hbreak := (doubleChar_spec c).1 c (by simp [hc])
    rw [hc, List.cons_append, List.nil_append, doubleFrom_cons (hne '\r' rfl) (hne '\\' rfl),
      if_neg (by simp [hbreak]), Mark.across_other hbreak]
    cases hblank : isBlank c with
    | true =>
      refine ⟨_, by rw [if_pos rfl]; rfl, by simp [Gap.blank, hbroken], ?_⟩
      simp [Partial.content, Gap.text, Gap.blank, hbroken]
    | false =>
      refine ⟨p.push c, ?_, rfl, rfl⟩
      rw [if_neg Bool.false_ne_true, if_neg (by simp [hcolumn.ne']), if_neg (hne '"' rfl)]
      rfl
  · have hall := escapeDigits_spec 'x' ⟨rfl, rfl⟩ 2 c.toNat
    refine ⟨p.push c, ?_, rfl, rfl⟩
    rw [hc, doubleFrom_twoDigits hn, ← Mark.forward_eq_across hall]
    simp only [List.length_cons, length_hexDigits]
  · have hall := escapeDigits_spec 'u' ⟨rfl, rfl⟩ 4 c.toNat
    refine ⟨p.push c, ?_, rfl, rfl⟩
    rw [hc, doubleFrom_fourDigits hn, ← Mark.forward_eq_across hall]
    simp only [List.length_cons, length_hexDigits]

/-- What was written in double quotes is read up to the closing quote. -/
theorem doubleFrom_chars (start mark : Mark) (after : List Char) (text : List Char)
    (hbroken : p.gap.broken = false)
    (hcolumn : 0 < mark.column) :
    doubleFrom start (text.flatMap doubleChar ++ '"' :: after) mark p =
      .ok (⟨text.reverse ++ p.content, {}⟩,
        ⟨after, mark.across (text.flatMap doubleChar ++ ['"'])⟩) := by
  induction text generalizing mark p with
  | nil =>
    rw [List.flatMap_nil, List.nil_append, doubleFrom_cons (by decide) (by decide),
      if_neg (by decide), if_neg (by decide), if_neg (by simp [hcolumn.ne']), if_pos rfl]
    rfl
  | cons c text ih =>
    obtain ⟨q, hscan, hq, hcontent⟩ := doubleFrom_char hbroken hcolumn c
    have hin : 0 < (mark.across (doubleChar c)).column := by
      rw [Mark.column_across (doubleChar_spec c).1]
      omega
    rw [List.flatMap_cons, List.append_assoc, hscan, ih _ hq hin, hcontent, List.append_assoc,
      Mark.across_append _ (doubleChar c)]
    simp

/-- Any text is read back from between double quotes. -/
theorem double_written (mark : Mark) (after : List Char) (text : List Char) (indent : Nat) :
    double ⟨written indent .doubleQuoted text ++ after, mark⟩ =
      .ok (text, ⟨after, mark.across (written indent .doubleQuoted text)⟩) := by
  have hscan := doubleFrom_chars mark (mark.forward 1) after (p := {})
    text rfl (Nat.succ_pos _)
  have hquote : isBreak '"' = false := rfl
  simp only [double, written, List.cons_append, List.append_assoc, List.nil_append, List.tail_cons,
    hscan, Mark.across_other hquote]
  simp [bind, Except.bind, pure, Except.pure, Partial.content, Gap.text]
  rfl

end Quoted

end CollectorTemplate.Yaml
