/-
Literal blocks read back.

A text that a block can hold is read as itself from its written lines.  The head of the block says
how deeply the lines are indented, where the text itself begins with a space or a break, and what
becomes of the breaks at its end.

* `Block.scanFrom_lines` : the lines of a block, whose phase is that of the character read last;
* `Block.scan_written` : a block, up to the beginning of the next token.
-/
import CollectorTemplate.Proofs.Yaml.Place

namespace CollectorTemplate.Yaml

open Scalar

namespace Block

variable {indent : Int} {start mark : Mark} {depth k : Nat} {c : Char} {text rest : List Char}
  {phase : Phase} {p : Partial}

/-! ### The head -/

/-- What the head says of the breaks at the end. -/
def chompingText : Chomping → List Char
  | .strip => ['-']
  | .clip => []
  | .keep => ['+']

theorem header_hints (digit : Bool) (chomping : Chomping) (body : List Char) (mark start : Mark) :
    header ⟨(if digit then ['2'] else []) ++ chompingText chomping ++ '\n' :: body, mark⟩ start =
      .ok (⟨chomping, if digit then some 2 else none⟩,
        ⟨'\n' :: body,
          mark.across ((if digit then ['2'] else []) ++ chompingText chomping)⟩) := by
  cases digit <;> cases chomping <;> rfl

/-! ### Lines -/

/-- The text read so far, latest character first. -/
def Partial.content (p : Partial) : List Char := p.trailing ++ (p.leading.toList ++ p.text)

/-- The step of the loop at a character of a line. -/
theorem scanFrom_inLine (hc : isBreak c = false) :
    scanFrom false indent start (c :: rest) mark (.line depth) p =
      scanFrom false indent start rest (mark.next c) (.line depth)
        { p with text := c :: p.text } := by
  have hcr : c ≠ '\r' := by
    rintro rfl
    nomatch hc
  rw [scanFrom]
  · rw [if_neg (by simp [hc])]
  · rintro _ rfl
    exact absurd rfl hcr

/-- The step of the loop at the end of a line. -/
theorem scanFrom_lineEnd (hcr : c ≠ '\r') (hc : isBreak c = true) :
    scanFrom false indent start (c :: rest) mark (.line depth) p =
      scanFrom false indent start rest (mark.newline c) (.indentation (some depth) 0)
        { p with leading := some (breakText c) } := by
  rw [scanFrom]
  · rw [if_pos hc]
  · rintro _ rfl
    exact absurd rfl hcr

/-- The step of the loop at an empty line. -/
theorem scanFrom_emptyLine {known : Option Nat} {deepest : Nat} (hcr : c ≠ '\r')
    (hc : isBreak c = true) :
    scanFrom false indent start (c :: rest) mark (.indentation known deepest) p =
      scanFrom false indent start rest (mark.newline c)
        (.indentation known (max deepest mark.column))
        { p with trailing := breakText c :: p.trailing } := by
  have hspace : c ≠ ' ' := by
    rintro rfl
    nomatch hc
  have htab : c ≠ '\t' := by
    rintro rfl
    nomatch hc
  rw [scanFrom]
  · rw [if_neg (by simp [hspace]), if_neg (by simp [htab]), if_pos hc]
  · rintro _ rfl
    exact absurd rfl hcr

/-- Spaces of the indentation are read over. -/
theorem scanFrom_spaces {known : Option Nat} {deepest : Nat} (k : Nat)
    (hknown : ∀ depth, known = some depth → mark.column + k ≤ depth) :
    scanFrom false indent start (spaces k ++ rest) mark (.indentation known deepest) p =
      scanFrom false indent start rest (mark.across (spaces k)) (.indentation known deepest) p := by
  induction k generalizing mark with
  | zero => rfl
  | succ k ih =>
    have hindentation : isIndentation known mark = true := by
      cases known with
      | none => rfl
      | some depth =>
        have := hknown depth rfl
        simp only [isIndentation, decide_eq_true_eq]
        omega
    rw [spaces, List.replicate_succ, List.cons_append, scanFrom,
      if_pos ⟨rfl, hindentation⟩, Mark.across_other rfl]
    · refine ih fun depth h => ?_
      have := hknown depth h
      simp only [Mark.next]
      omega
    · exact fun _ h => absurd h (by decide)

/-- The first character of a line, behind the indentation. -/
theorem scanFrom_lead {known : Option Nat} {deepest : Nat} (hbreak : isBreak c = false)
    (htab : c ≠ '\t') (hcolumn : mark.column = 0)
    (hknown : known = some depth ∨
      (known = none ∧ deepest = 0 ∧ c ≠ ' ' ∧ indent + 1 ≤ depth ∧ 0 < depth)) :
    scanFrom false indent start (spaces depth ++ c :: rest) mark (.indentation known deepest) p =
      scanFrom false indent start rest (mark.across (spaces depth ++ [c])) (.line depth)
        ⟨c :: p.content, none, [], isBlank c⟩ := by
  have hin : (mark.across (spaces depth)).column = depth := by
    rw [Mark.column_across fun d hd => by rw [List.eq_of_mem_replicate hd]; rfl, hcolumn, spaces,
      List.length_replicate, Nat.zero_add]
  have hspace : ¬(c = ' ' ∧ isIndentation known (mark.across (spaces depth)) = true) := by
    rintro ⟨rfl, h⟩
    rcases hknown with rfl | ⟨-, -, hne, -⟩
    · simp [isIndentation, hin] at h
    · exact hne rfl
  have hsettled : (Phase.indentation known deepest).settled indent (mark.across (spaces depth)) =
      depth := by
    rcases hknown with rfl | ⟨rfl, rfl, -, hindent, hpos⟩
    · rfl
    · simp only [Phase.settled, hin]
      omega
  have hcr : c ≠ '\r' := by
    rintro rfl
    exact absurd hbreak (by decide)
  rw [scanFrom_spaces, scanFrom, if_neg hspace, if_neg (by simp [htab]),
    if_neg (by simp [hbreak])]
  · simp only [hsettled, hin, if_true, Mark.across_append, Mark.across_other hbreak,
      Mark.across_nil]
    rfl
  · rintro _ rfl
    exact absurd rfl hcr
  · rintro _ rfl
    rcases hknown with h | ⟨h, -⟩
    · obtain rfl := Option.some.inj h
      omega
    · exact absurd h (by simp)

/-- Behind the lines, at the indentation of something else, the block is over. -/
theorem scanFrom_end {deepest : Nat} (hcolumn : mark.column = 0) (hk : k < depth)
    (hrest : Begins rest) :
    scanFrom false indent start (spaces k ++ rest) mark (.indentation (some depth) deepest) p =
      .ok (p, ⟨rest, mark.across (spaces k)⟩) := by
  have hin : (mark.across (spaces k)).column = k := by
    rw [Mark.column_across fun d hd => by rw [List.eq_of_mem_replicate hd]; rfl, hcolumn, spaces,
      List.length_replicate, Nat.zero_add]
  rw [scanFrom_spaces]
  · cases rest with
    | nil => rfl
    | cons c rest =>
      obtain ⟨hc, -⟩ := hrest c rfl
      simp only [isSpacing, isBlank, Bool.or_eq_false_iff, beq_eq_false_iff_ne] at hc
      obtain ⟨⟨hspace, htab⟩, hbreak⟩ := hc
      have hcr : c ≠ '\r' := by
        rintro rfl
        exact absurd hbreak (by decide)
      rw [scanFrom, if_neg (by simp [hspace]), if_neg (by simp [htab]), if_neg (by simp [hbreak])]
      · simp only [Phase.settled, hin, if_neg hk.ne]
      · rintro _ rfl
        exact absurd rfl hcr
  · rintro _ h
    obtain rfl := Option.some.inj h
    omega

/-- The phase behind a character of a block whose lines begin at column `depth`: a new line if that
was a break. -/
def Follows (depth : Nat) (fresh : Bool) (mark : Mark) (p : Partial) : Phase → Prop
  | .indentation known _ => fresh = true ∧ known = some depth ∧ mark.column = 0
  | .line at_ => fresh = false ∧ at_ = depth ∧ p.leading = none ∧ p.trailing = []

/-- Whether a new line begins behind a text. -/
def freshAfter (fresh : Bool) (text : List Char) : Bool := (text.getLast?.map isBreak).getD fresh

theorem freshAfter_cons (fresh : Bool) (c : Char) (text : List Char) :
    freshAfter fresh (c :: text) = freshAfter (isBreak c) text := by
  cases text with
  | nil => rfl
  | cons d text =>
    obtain ⟨last, hlast⟩ :=
      Option.isSome_iff_exists.mp (List.getLast?_isSome.mpr (List.cons_ne_nil d text))
    rw [freshAfter, List.getLast?_cons_cons, freshAfter, hlast]
    rfl

/-- One character of the text, with the indentation in front of it if it begins a line. -/
theorem scanFrom_char {fresh : Bool} (hprint : isPrintable c = true)
    (hphase : Follows depth fresh mark p phase) :
    ∃ lead phase' q, blockLines depth fresh (c :: text) = lead ++ blockLines depth (isBreak c) text
      ∧
      (∀ rest, scanFrom false indent start (lead ++ rest) mark phase p =
        scanFrom false indent start rest (mark.across lead) phase' q) ∧
      q.content = c :: p.content ∧ Follows depth (isBreak c) (mark.across lead) q phase' := by
  have hcr : c ≠ '\r' := ne_of_isPrintable hprint rfl
  cases hbreak : isBreak c with
  | true =>
    have hkept := breakText_of_isPrintable hprint hbreak
    have hlines : blockLines depth fresh (c :: text) = [c] ++ blockLines depth true text := by
      simp [blockLines, hbreak]
    rw [hlines]
    cases phase with
    | indentation known deepest =>
      obtain ⟨-, rfl, -⟩ := hphase
      refine ⟨[c], .indentation (some depth) (max deepest mark.column),
        { p with trailing := breakText c :: p.trailing }, rfl, fun rest => ?_, ?_, rfl, rfl, ?_⟩
      · rw [List.singleton_append, scanFrom_emptyLine hcr hbreak, Mark.across_break hbreak]
        rfl
      · simp [Partial.content, hkept]
      · rw [Mark.across_break hbreak]
        rfl
    | line at_ =>
      obtain ⟨-, rfl, hleading, htrailing⟩ := hphase
      refine ⟨[c], .indentation (some at_) 0, { p with leading := some (breakText c) }, rfl,
        fun rest => ?_, ?_, rfl, rfl, ?_⟩
      · rw [List.singleton_append, scanFrom_lineEnd hcr hbreak, Mark.across_break hbreak]
        rfl
      · simp [Partial.content, hkept, hleading, htrailing]
      · rw [Mark.across_break hbreak]
        rfl
  | false =>
    cases phase with
    | indentation known deepest =>
      obtain ⟨rfl, rfl, hcolumn⟩ := hphase
      refine ⟨spaces depth ++ [c], .line depth, ⟨c :: p.content, none, [], isBlank c⟩,
        by simp [blockLines, hbreak], fun rest => ?_, rfl, rfl, rfl, rfl, rfl⟩
      rw [List.append_assoc, List.singleton_append,
        scanFrom_lead hbreak (ne_of_isPrintable hprint rfl) hcolumn (.inl rfl)]
    | line at_ =>
      obtain ⟨rfl, rfl, hleading, htrailing⟩ := hphase
      refine ⟨[c], .line at_, { p with text := c :: p.text }, by simp [blockLines, hbreak],
        fun rest => ?_, ?_, rfl, rfl, hleading, htrailing⟩
      · rw [List.singleton_append, scanFrom_inLine hbreak, Mark.across_other hbreak]
        rfl
      · simp [Partial.content, hleading, htrailing]

/-- The lines of a block are read as the text they were written from. -/
theorem scanFrom_lines (phase : Phase) {fresh : Bool} {text : List Char}
    (hprint : ∀ c ∈ text, isPrintable c = true)
    (hphase : Follows depth fresh mark p phase) (rest : List Char) :
    ∃ phase' q, scanFrom false indent start (blockLines depth fresh text ++ rest) mark phase p =
        scanFrom false indent start rest (mark.across (blockLines depth fresh text)) phase' q ∧
      q.content = text.reverse ++ p.content ∧
      Follows depth (freshAfter fresh text) (mark.across (blockLines depth fresh text)) q
        phase' := by
  induction text generalizing fresh mark p phase with
  | nil => exact ⟨phase, p, rfl, rfl, hphase⟩
  | cons c text ih =>
    obtain ⟨hc, htext⟩ := List.forall_mem_cons.mp hprint
    obtain ⟨lead, phase', q, hlines, hscan, hcontent, hphase⟩ :=
      scanFrom_char hc hphase
    obtain ⟨phase'', r, hrest, hr, hphase⟩ := ih _ htext hphase
    rw [← Mark.across_append, ← hlines] at hphase hrest
    refine ⟨phase'', r, ?_, ?_, ?_⟩
    · rw [hlines, List.append_assoc, hscan, hrest, hlines]
    · rw [hr, hcontent, List.reverse_cons, List.append_assoc]
      rfl
    · rw [freshAfter_cons]
      exact hphase

/-- Whether a text begins with a space or a break, so that the head has to tell the indentation. -/
def isLoose (text : List Char) : Bool := text.head?.any fun c => c == ' ' || isBreak c

/-- The lines of a block, where the indentation is told by the head or by the first of them. -/
theorem scanFrom_body (start : Mark) {known : Option Nat} (htext : text ≠ [])
    (hprint : ∀ c ∈ text, isPrintable c = true) (hcolumn : mark.column = 0)
    (hknown : known = some depth ∨
      (known = none ∧ isLoose text = false ∧ indent + 1 ≤ depth ∧ 0 < depth)) (rest : List Char) :
    ∃ phase q, scanFrom false indent start (blockLines depth true text ++ rest) mark
        (.indentation known 0) {} =
        scanFrom false indent start rest (mark.across (blockLines depth true text)) phase q ∧
      q.content = text.reverse ∧
      Follows depth (freshAfter true text) (mark.across (blockLines depth true text)) q phase := by
  rcases hknown with rfl | ⟨rfl, hloose, hindent, hpos⟩
  · obtain ⟨phase, q, hscan, hcontent, hphase⟩ := scanFrom_lines (.indentation (some depth) 0)
      (p := {}) hprint ⟨rfl, rfl, hcolumn⟩ rest
    exact ⟨phase, q, hscan, hcontent.trans (List.append_nil _), hphase⟩
  · obtain ⟨c, text, rfl⟩ := List.exists_cons_of_ne_nil htext
    obtain ⟨hc, hprint⟩ := List.forall_mem_cons.mp hprint
    simp only [isLoose, List.head?_cons, Option.any_some, Bool.or_eq_false_iff,
      beq_eq_false_iff_ne] at hloose
    obtain ⟨hspace, hbreak⟩ := hloose
    have hlines : blockLines depth true (c :: text) =
        (spaces depth ++ [c]) ++ blockLines depth false text := by
      simp [blockLines, hbreak]
    obtain ⟨phase, q, hscan, hcontent, hphase⟩ := scanFrom_lines (.line depth)
      (p := ⟨[c], none, [], isBlank c⟩) hprint
      ⟨rfl, rfl, rfl, rfl⟩ rest
    rw [← Mark.across_append, ← hlines] at hscan hphase
    refine ⟨phase, q, ?_, ?_, ?_⟩
    · rw [hlines, List.append_assoc, List.append_assoc, List.singleton_append,
        scanFrom_lead hbreak (ne_of_isPrintable hc rfl) hcolumn
          (.inr ⟨rfl, rfl, hspace, hindent, hpos⟩), ← hlines]
      exact hscan
    · rw [hcontent, List.reverse_cons]
      rfl
    · rw [freshAfter_cons, hbreak]
      exact hphase

/-! ### Whole blocks -/

/-- The head of a written block. -/
def hints (text : List Char) (chomping : Chomping) : List Char :=
  (if isLoose text then ['2'] else []) ++ chompingText chomping

/-- The ways in which a text ends, and what the head of its block says of it. -/
theorem blockHints_cases (htext : text ≠ []) :
    (∃ init c, text = init ++ [c] ∧ isBreak c = false ∧ blockHints text = hints text .strip) ∨
    (∃ init b c, text = init ++ [b] ++ [c] ∧ isBreak b = false ∧ isBreak c = true ∧
      blockHints text = hints text .clip) ∨
    (∃ init c, text = init ++ [c] ∧ isBreak c = true ∧ blockHints text = hints text .keep) := by
  obtain ⟨init, c, rfl⟩ : ∃ init c, text = init ++ [c] :=
    ⟨_, _, (List.dropLast_concat_getLast htext).symm⟩
  have hdigit : Nat.digitChar indentation = '2' := rfl
  cases hc : isBreak c with
  | false =>
    refine .inl ⟨init, c, rfl, hc, ?_⟩
    cases hinit : init.reverse <;>
      simp [blockHints, hints, isLoose, hdigit, hinit, hc, chompingText]
  | true =>
    by_cases hinit : init = []
    · subst hinit
      exact .inr (.inr ⟨[], c, rfl, hc, by
        simp [blockHints, hints, isLoose, hdigit, hc, chompingText]⟩)
    · obtain ⟨init, b, rfl⟩ : ∃ init' b, init = init' ++ [b] :=
        ⟨_, _, (List.dropLast_concat_getLast hinit).symm⟩
      cases hb : isBreak b with
      | false =>
        exact .inr (.inl ⟨init, b, c, rfl, hb, hc, by
          simp [blockHints, hints, isLoose, hdigit, hc, hb, chompingText]⟩)
      | true =>
        exact .inr (.inr ⟨init ++ [b], c, rfl, hc, by
          simp [blockHints, hints, isLoose, hdigit, hc, hb, chompingText]⟩)

theorem freshAfter_concat (fresh : Bool) (init : List Char) (c : Char) :
    freshAfter fresh (init ++ [c]) = isBreak c := by
  simp [freshAfter]

theorem blockLines_append (depth : Nat) (fresh : Bool) (a b : List Char) :
    blockLines depth fresh (a ++ b) =
      blockLines depth fresh a ++ blockLines depth (freshAfter fresh a) b := by
  induction a generalizing fresh with
  | nil => rfl
  | cons c a ih =>
    rw [freshAfter_cons, List.cons_append, blockLines, blockLines, ih, ih]
    cases hc : isBreak c <;> simp

/-- Behind its head, a block is its lines. -/
theorem scan_of_lines {parent : Int} {chomping : Chomping} {body : List Char} {stop : Cursor}
    (h : scanFrom false parent mark body (mark.across ('|' :: hints text chomping ++ ['\n']))
      (.indentation (if isLoose text then some ((max parent 0).toNat + 2) else none) 0) {} =
        .ok (p, stop)) :
    scan false parent ⟨'|' :: hints text chomping ++ '\n' :: body, mark⟩ =
      .ok (p.finish chomping, stop) := by
  have hend (c : Cursor) (hc : c.rest = '\n' :: body) :
      headerEnd c mark = .ok ⟨body, c.mark.newline '\n'⟩ := by
    obtain ⟨rest, place⟩ := c
    subst hc
    rfl
  have hnext : Cursor.next ⟨'|' :: hints text chomping ++ '\n' :: body, mark⟩ =
      ⟨hints text chomping ++ '\n' :: body, mark.next '|'⟩ := rfl
  have hmark : ((mark.next '|').across (hints text chomping)).newline '\n' =
      mark.across ('|' :: hints text chomping ++ ['\n']) := by
    rw [List.cons_append, Mark.across_other rfl, Mark.across_append]
    rfl
  have hdepth : (if isLoose text then some 2 else none).map (fun n => (max parent 0).toNat + n) =
      if isLoose text then some ((max parent 0).toNat + 2) else none := by
    cases isLoose text <;> rfl
  rw [scan, hnext, hints, header_hints]
  simp only [bind, Except.bind]
  rw [hend _ rfl]
  simp only [hdepth]
  rw [hints] at hmark h
  rw [hmark, h]
  rfl

/-- Lines of which the last does not end with a break of the text, and the break that ends it, read
up to the next token. -/
theorem scanFrom_closed (start : Mark) {known : Option Nat} (htext : text ≠ [])
    (hprint : ∀ c ∈ text, isPrintable c = true) (hlast : freshAfter true text = false)
    (hcolumn : mark.column = 0)
    (hknown : known = some depth ∨
      (known = none ∧ isLoose text = false ∧ indent + 1 ≤ depth ∧ 0 < depth))
    (hcr : c ≠ '\r') (hc : isBreak c = true) (hk : k < depth) (hrest : Begins rest) :
    let lines := blockLines depth true text ++ [c]
    ∃ q, scanFrom false indent start (lines ++ (spaces k ++ rest)) mark (.indentation known 0) {} =
        .ok (q, ⟨rest, mark.across (lines ++ spaces k)⟩) ∧
      q.text = text.reverse ∧ q.leading = some (breakText c) := by
  intro lines
  obtain ⟨phase, q, hscan, hcontent, hphase⟩ :=
    scanFrom_body start htext hprint hcolumn hknown (c :: (spaces k ++ rest))
  rw [hlast] at hphase
  cases phase with
  | indentation known deepest => nomatch hphase.1
  | line depth =>
    obtain ⟨-, rfl, hleading, htrailing⟩ := hphase
    refine ⟨{ q with leading := some (breakText c) }, ?_, ?_, rfl⟩
    · rw [List.append_assoc, List.singleton_append, hscan, scanFrom_lineEnd hcr hc,
        scanFrom_end rfl hk hrest, List.append_assoc, Mark.across_append, List.singleton_append,
        Mark.across_break hc]
    · simpa only [Partial.content, hleading, htrailing, Option.toList_none, List.nil_append]
        using hcontent

/-- The lines of a block and the end of the last of them, read up to the next token. -/
theorem scanFrom_written (mark : Mark) {known : Option Nat}
    (hprint : ∀ c ∈ text, isPrintable c = true)
    (htext : text ≠ []) (hcolumn : mark.column = 0)
    (hknown : known = some depth ∨
      (known = none ∧ isLoose text = false ∧ indent + 1 ≤ depth ∧ 0 < depth)) (hk : k < depth)
    (hrest : Begins rest) :
    let lines := blockLines depth true text ++ (if endsLine .literal text then [] else ['\n'])
    ∃ chomping q, blockHints text = hints text chomping ∧
      scanFrom false indent start (lines ++ (spaces k ++ rest)) mark (.indentation known 0) {} =
        .ok (q, ⟨rest, mark.across (lines ++ spaces k)⟩) ∧
      q.finish chomping = text := by
  intro lines
  rcases blockHints_cases htext with
    ⟨init, c, rfl, hc, hhints⟩ | ⟨init, b, c, rfl, hb, hc, hhints⟩ | ⟨init, c, rfl, hc, hhints⟩
  · -- The break behind the last line is not of the text.
    have hlines : lines = blockLines depth true (init ++ [c]) ++ ['\n'] := by
      simp [lines, endsLine, hc]
    obtain ⟨q, hscan, hread, -⟩ := scanFrom_closed (c := '\n') start htext hprint
      ((freshAfter_concat true init c).trans hc) hcolumn hknown (by decide) rfl hk hrest
    rw [hlines]
    exact ⟨.strip, q, hhints, hscan, by simp [Partial.finish, hread]⟩
  · -- The break that ends the text ends its last line too.
    have hlines : lines = blockLines depth true (init ++ [b]) ++ [c] := by
      have hline : blockLines depth false [c] = [c] := by simp [blockLines, hc]
      rw [← hline, ← hb, ← freshAfter_concat true init b, ← blockLines_append]
      simp [lines, endsLine, hc]
    have hprintable : isPrintable c = true := hprint c (by simp)
    have hhead : (init ++ [b]).head? = (init ++ [b] ++ [c]).head? := by simp
    obtain ⟨q, hscan, hread, hleading⟩ := scanFrom_closed start
      (List.append_ne_nil_of_right_ne_nil init (List.cons_ne_nil b []))
      (fun d hd => hprint d (List.mem_append_left _ hd)) ((freshAfter_concat true init b).trans hb)
      hcolumn (by rwa [isLoose, hhead]) (ne_of_isPrintable hprintable rfl) hc hk hrest
    rw [breakText_of_isPrintable hprintable hc] at hleading
    rw [hlines]
    exact ⟨.clip, q, hhints, hscan, by simp [Partial.finish, hread, hleading]⟩
  · obtain ⟨phase, q, hscan, hcontent, hphase⟩ :=
      scanFrom_body start htext hprint hcolumn hknown (spaces k ++ rest)
    rw [freshAfter_concat, hc] at hphase
    cases phase with
    | line depth => nomatch hphase.1
    | indentation known' deepest =>
      obtain ⟨-, rfl, hzero⟩ := hphase
      have hlines : lines = blockLines depth true (init ++ [c]) := by
        simp [lines, endsLine, hc]
      refine ⟨.keep, q, hhints, ?_, ?_⟩
      · rw [hlines, hscan, scanFrom_end hzero hk hrest, Mark.across_append]
      · rw [Partial.content, ← List.append_assoc] at hcontent
        simp [Partial.finish, hcontent]

/-- A text that a block can hold is read back from it, and the reader stands on the next token. -/
theorem scan_written (mark : Mark) {parent : Int} {column : Nat} (hholds : blockHolds text = true)
    (htext : text ≠ []) (hcolumn : (max parent 0).toNat = column) (hk : k ≤ column)
    (hrest : Begins rest) :
    let lines := written (column + indentation) .literal text ++
      (if endsLine .literal text then [] else ['\n'])
    scan false parent ⟨lines ++ (spaces k ++ rest), mark⟩ =
      .ok (text, ⟨rest, mark.across (lines ++ spaces k)⟩) := by
  simp only [blockHolds, Bool.and_eq_true, List.all_eq_true] at hholds
  obtain ⟨⟨hprint, -⟩, -⟩ := hholds
  intro lines
  have hknown : (if isLoose text then some ((max parent 0).toNat + 2) else none) =
        some (column + 2) ∨
      ((if isLoose text then some ((max parent 0).toNat + 2) else none) = none ∧
        isLoose text = false ∧ parent + 1 ≤ (column + 2 : Nat) ∧ 0 < column + 2) := by
    cases isLoose text with
    | true => exact .inl (by simp [hcolumn])
    | false => exact .inr ⟨rfl, rfl, by omega, by omega⟩
  obtain ⟨chomping, q, hhints, hscan, hfinish⟩ := scanFrom_written
    (mark.across ('|' :: blockHints text ++ ['\n'])) hprint htext
    (by rw [Mark.across_append]; rfl) hknown (by omega : k < column + 2) hrest
  rw [hhints] at hscan
  have hlines : lines = '|' :: hints text chomping ++ ['\n'] ++
      (blockLines (column + 2) true text ++ (if endsLine .literal text then [] else ['\n'])) := by
    simp [lines, written, hhints, indentation]
  have hwhole : lines ++ (spaces k ++ rest) = '|' :: hints text chomping ++ '\n' ::
      (blockLines (column + 2) true text ++ (if endsLine .literal text then [] else ['\n']) ++
        (spaces k ++ rest)) := by
    simp [hlines]
  have hmark : mark.across (lines ++ spaces k) =
      (mark.across ('|' :: hints text chomping ++ ['\n'])).across
        (blockLines (column + 2) true text ++ (if endsLine .literal text then [] else ['\n']) ++
          spaces k) := by
    rw [hlines, List.append_assoc _ _ (spaces k), Mark.across_append]
  rw [hwhole, hmark, scan_of_lines hscan, hfinish]

end Block

end CollectorTemplate.Yaml
