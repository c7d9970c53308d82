/-
Plain scalars read back.

A text that a plain scalar can hold is read as itself, with the reader right behind it in front of a
colon, and on the next token if the line ends with it.

* `Plain.scan_key` : in front of a colon;
* `Plain.scan_line` : at the end of a line.
-/
import CollectorTemplate.Proofs.Yaml.Place

namespace CollectorTemplate.Yaml

open Scalar

namespace Plain

open Lexing

variable {flow : Bool} {indent : Int} {start mark : Mark} {c : Char} {rest : List Char}
  {p : Partial}

/-- The step of the loop at any character that is no CR. -/
theorem scanFrom_cons (hc : c ≠ '\r') :
    scanFrom flow indent start (c :: rest) mark p =
      if isBreak c then
        scanFrom flow indent start rest (mark.newline c) { p with gap := p.gap.newline c }
      else if isBlank c then
        if p.gap.broken ∧ (mark.column : Int) < indent ∧ c = '\t' then
          .error ⟨.tabBreaksIndentation, mark, some (.plainScalar, start)⟩
        else scanFrom flow indent start rest (mark.next c) { p with gap := p.gap.blank c }
      else if isStop flow indent p.gap (c :: rest) mark then .ok (p, ⟨c :: rest, mark⟩)
      else if flow && c == ':' && isStrayColon rest then
        .error ⟨.strayColon, mark, some (.plainScalar, start)⟩
      else if isEnd flow c rest then .ok (p, ⟨c :: rest, mark⟩)
      else
        scanFrom flow indent start rest (mark.next c)
          { text := c :: (p.gap.text.reverse ++ p.text), gap := {} } := by
  rw [scanFrom]
  rintro _ rfl
  exact absurd rfl hc

/-- The text with the white space that was read since, latest character first. -/
def Partial.content (p : Partial) : List Char := p.gap.text.reverse ++ p.text

/-- The step of the loop at a character of a word. -/
theorem scanFrom_word (hcr : c ≠ '\r') (hbreak : isBreak c = false) (hblank : isBlank c = false)
    (hstop : isStop false indent p.gap (c :: rest) mark = false)
    (hend : isEnd false c rest = false) :
    scanFrom false indent start (c :: rest) mark p =
      scanFrom false indent start rest (mark.next c) { text := c :: p.content, gap := {} } := by
  rw [scanFrom_cons hcr, if_neg (by simp [hbreak]), if_neg (by simp [hblank]),
    if_neg (by simp [hstop]), if_neg (by simp), if_neg (by simp [hend])]
  rfl

/-- Nothing but a colon in front of a gap ends a scalar. -/
theorem isEnd_append {words : List Char} (after : List Char)
    (hcolon : c = ':' → gapAhead words = false) : isEnd false c (words ++ after) = false := by
  rw [← Bool.not_eq_true]
  intro hend
  obtain ⟨h, hgap⟩ : c = ':' ∧ gapAhead (words ++ after) = true := by simpa [isEnd] using hend
  cases words with
  | nil => exact absurd (hcolon h) (by decide)
  | cons d words => exact Bool.false_ne_true ((hcolon h).symm.trans hgap)

/-- Over the rest of a line of words, behind the character `before`. -/
theorem scanFrom_words (indent : Int) (start mark : Mark) {before : Char} {words after : List Char}
    (hprint : ∀ c ∈ words, isPrintable c = true) (hbreak : ∀ c ∈ words, isBreak c = false)
    (hends : endsEarly before words = false) (hbroken : p.gap.broken = false)
    (hblanks : p.gap.blanks ≠ [] → isSpacing before = true)
    (hcolumn : 0 < mark.column) (hindent : indent ≤ mark.column) :
    ∃ q, scanFrom false indent start (words ++ after) mark p =
        scanFrom false indent start after (mark.across words) q ∧
      q.gap.broken = false ∧ q.content = words.reverse ++ p.content ∧
      (q.gap.blanks ≠ [] → ∀ c ∈ (before :: words).getLast?, isSpacing c = true) := by
  induction words generalizing before mark p with
  | nil => exact ⟨p, rfl, hbroken, rfl, fun h c hc => by simp_all⟩
  | cons c words ih =>
    obtain ⟨hc, hwords⟩ := List.forall_mem_cons.mp hprint
    obtain ⟨hcb, hline⟩ := List.forall_mem_cons.mp hbreak
    simp only [endsEarly, Bool.or_eq_false_iff] at hends
    obtain ⟨⟨hcolon, hsign⟩, hends⟩ := hends
    have hlast : (before :: c :: words).getLast? = (c :: words).getLast? := by
      rw [List.getLast?_cons_cons]
    rw [hlast]
    cases hblank : isBlank c with
    | true =>
      obtain rfl := (isBlank_iff_of_isPrintable hc).mp hblank
      obtain ⟨q, hscan, hq, hcontent, hqlast⟩ :=
        ih (mark.next ' ') (p := { p with gap := p.gap.blank ' ' })
          hwords hline hends (by simp [Gap.blank, hbroken]) (fun _ => rfl)
          (Nat.succ_pos _) (by simp only [Mark.next]; omega)
      refine ⟨q, ?_, hq, ?_, hqlast⟩
      · rw [List.cons_append, scanFrom_cons (by decide), if_neg (by decide), if_pos hblank,
          if_neg (by simp), hscan, Mark.across_other hcb]
      · rw [hcontent]
        simp [Partial.content, Gap.text, Gap.blank, hbroken]
    | false =>
      -- No comment begins here, and the line is far enough in.
      have hstop : isStop false indent p.gap (c :: (words ++ after)) mark = false := by
        by_cases hgap : p.gap.blanks = []
        · simp [isStop, hgap, hbroken]
        · have hsharp : c ≠ '#' := by
            rintro rfl
            simp [hblanks hgap] at hsign
          have hin : ¬(mark.column : Int) < indent := by omega
          simp [isStop, hsharp, hin, hcolumn.ne']
      have hend := isEnd_append after fun h : c = ':' => by simpa [h] using hcolon
      obtain ⟨q, hscan, hq, hcontent, hqlast⟩ :=
        ih (mark.next c) (p := { text := c :: p.content, gap := {} })
          hwords hline hends rfl (fun h => absurd rfl h)
          (Nat.succ_pos _) (by simp only [Mark.next]; omega)
      refine ⟨q, ?_, hq, ?_, hqlast⟩
      · rw [List.cons_append, scanFrom_word (ne_of_isPrintable hc rfl) hcb hblank hstop hend,
          hscan, Mark.across_other hcb]
      · rw [hcontent]
        simp [Partial.content, Gap.text]

/-- A text that a plain scalar can hold is read to its end. -/
theorem scanFrom_text (indent : Int) (start mark : Mark) (after : List Char) {text : List Char}
    (hplain : plainHolds text = true) (htext : text ≠ [])
    (hindent : indent ≤ mark.column + 1) :
    ∃ q, scanFrom false indent start (text ++ after) mark {} =
        scanFrom false indent start after (mark.across text) q ∧
      q.gap.broken = false ∧ q.gap.blanks = [] ∧ q.text = text.reverse := by
  obtain ⟨c, words, rfl⟩ := List.exists_cons_of_ne_nil htext
  simp only [plainHolds, Bool.and_eq_true, Bool.not_eq_true', List.all_eq_true,
    List.any_eq_false, Bool.not_eq_true] at hplain
  obtain ⟨⟨⟨hprint, hbreak⟩, hloose⟩, hindicator⟩ := hplain
  simp only [hasLooseEnd, List.head?_cons, Option.any_some, Bool.or_eq_false_iff,
    beq_eq_false_iff_ne] at hloose
  simp only [hasIndicator, opensOther, Bool.or_eq_false_iff] at hindicator
  obtain ⟨⟨-, -, hopen⟩, hends⟩ := hindicator
  obtain ⟨hc, hwords⟩ := List.forall_mem_cons.mp hprint
  obtain ⟨hcb, hline⟩ := List.forall_mem_cons.mp hbreak
  have hblank : isBlank c = false := by
    rw [← Bool.not_eq_true, isBlank_iff_of_isPrintable hc]
    exact hloose.1.1
  have hend := isEnd_append after fun h : c = ':' => by simpa [h] using hopen
  rw [List.cons_append, scanFrom_word (ne_of_isPrintable hc rfl) hcb hblank (by simp [isStop]) hend,
    Mark.across_other hcb]
  obtain ⟨q, hscan, hq, hcontent, hlast⟩ :=
    scanFrom_words indent _ (mark.next c) (p := { text := [c] }) hwords hline hends rfl
      (fun h => absurd rfl h)
      (Nat.succ_pos _) (by simp only [Mark.next]; omega)
  have hblanks : q.gap.blanks = [] := by
    by_contra h
    obtain ⟨d, hd⟩ := List.getLast?_isSome.mpr (List.cons_ne_nil c words) |>
      Option.isSome_iff_exists.mp
    have hspacing := hlast h d hd
    have hmem : d ∈ c :: words := List.mem_of_getLast? hd
    have hdb := hbreak d hmem
    have hspace := (isBlank_iff_of_isPrintable (hprint d hmem)).mp
      (by simpa [isSpacing, hdb] using hspacing)
    rw [hd] at hloose
    simp [hspace] at hloose
  refine ⟨q, hscan, hq, hblanks, ?_⟩
  have htext : q.content = q.text := by simp [Partial.content, Gap.text, hq, hblanks]
  rw [← htext, hcontent]
  simp [Partial.content, Gap.text]

/-- A plain scalar ends before a colon. -/
theorem scan_key {text after : List Char} (hplain : plainHolds text = true) (htext : text ≠ [])
    (hafter : gapAhead after = true) (hindent : indent ≤ mark.column) :
    scan false indent ⟨text ++ ':' :: after, mark⟩ =
      .ok (text, ⟨':' :: after, mark.across text⟩, false) := by
  obtain ⟨q, hscan, hbroken, hblanks, hq⟩ :=
    scanFrom_text (indent + 1) mark mark (':' :: after)
      hplain htext (by omega)
  have hcolon : scanFrom false (indent + 1) mark (':' :: after) (mark.across text) q =
      .ok (q, ⟨':' :: after, mark.across text⟩) := by
    rw [scanFrom_cons (by decide), if_neg (by decide), if_neg (by decide),
      if_neg (by simp [isStop, hblanks, hbroken]), if_neg (by simp), if_pos
        (by simp [isEnd, hafter])]
  simp [scan, hscan, hcolon, hq, hbroken, bind, Except.bind, pure, Except.pure]

/-- Behind a line break, blanks do not count. -/
theorem scanFrom_spaces (hbroken : p.gap.broken = true) (k : Nat) :
    scanFrom flow indent start (spaces k ++ rest) mark p =
      scanFrom flow indent start rest (mark.across (spaces k)) p := by
  induction k generalizing mark with
  | zero => rfl
  | succ k ih =>
    have hsame : { p with gap := p.gap.blank ' ' } = p := by simp [Gap.blank, hbroken]
    rw [spaces, List.replicate_succ, List.cons_append, scanFrom_cons (by decide),
      if_neg (by decide), if_pos (show isBlank ' ' = true from rfl), if_neg (by simp), hsame,
        Mark.across_other rfl]
    exact ih

/-- A plain scalar ends with its line if the next one is not indented more deeply than the
collection around it, or the text is over. -/
theorem scan_line {text : List Char} {k : Nat} (hplain : plainHolds text = true) (htext : text ≠ [])
    (hindent : indent ≤ mark.column) (hk : (k : Int) ≤ indent ∨ rest = []) (hrest : Begins rest) :
    scan false indent ⟨text ++ '\n' :: (spaces k ++ rest), mark⟩ =
      .ok (text, ⟨rest, mark.across (text ++ '\n' :: spaces k)⟩, true) := by
  obtain ⟨q, hscan, hbroken, hblanks, hq⟩ :=
    scanFrom_text (indent + 1) mark mark ('\n' :: (spaces k ++ rest)) hplain htext (by omega)
  have hcolumn := Mark.column_spaces (mark.across text) k
  rw [Mark.across_append]
  rw [Mark.across_break rfl] at hcolumn ⊢
  have hend : scanFrom false (indent + 1) mark ('\n' :: (spaces k ++ rest)) (mark.across text) q =
      .ok ({ q with gap := q.gap.newline '\n' },
        ⟨rest, ((mark.across text).newline '\n').across (spaces k)⟩) := by
    rw [scanFrom_cons (by decide), if_pos (show isBreak '\n' = true from rfl), scanFrom_spaces
      (by simp [Gap.newline, hbroken])]
    cases rest with
    | nil => rfl
    | cons c rest =>
      obtain ⟨hc, hsharp, -⟩ := hrest c rfl
      obtain ⟨hblank, hbreak⟩ := Bool.or_eq_false_iff.mp hc
      have hcr : c ≠ '\r' := by
        rintro rfl
        nomatch hbreak
      have hout : (k : Int) < indent + 1 := Int.lt_add_one_iff.mpr (hk.resolve_right (by simp))
      rw [scanFrom_cons hcr, if_neg (by simp [hbreak]), if_neg (by simp [hblank]),
        if_pos (by simp [isStop, Gap.newline, hbroken, hcolumn, hout])]
  simp [scan, hscan, hend, hq, Gap.newline, hbroken, bind, Except.bind, pure, Except.pure]

end Plain

end CollectorTemplate.Yaml
