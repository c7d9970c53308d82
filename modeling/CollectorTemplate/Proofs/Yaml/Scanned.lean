/-
Where the readers of tokens stop.

Whatever a token is made of, its reader moves over characters of one line or over whole breaks.  So
it goes from a place of the text to a later one, and a fault lies where it has come to.

* `Property.ends_name`, `Property.ends_tag`, `Directive.ends_scan` : anchors, aliases, tags and
  directives;
* `Plain.ends_scan`, `Quoted.ends_single`, `Quoted.ends_double`, `Block.ends_scan` : scalars.
-/
import CollectorTemplate.Proofs.Yaml.Rows
import Mathlib.Data.List.Induction

namespace CollectorTemplate.Yaml

open Cursor

variable {text : List Char} {start : Mark} {c : Cursor}

/-! ### Properties -/

namespace Property

theorem at_octet {n : Nat} (h : c.At text start) (hoctet : octet? c.rest = some n) :
    (c.forward 3).At text start := by
  obtain ⟨part, hrest, hpart⟩ := along_octet? hoctet
  have hlength : 3 ≤ c.rest.length := by
    unfold octet? at hoctet
    split at hoctet
    · rename_i hrest
      rw [hrest]
      simp
    · nomatch hoctet
  refine h.forward hlength fun x hx => hpart x ?_
  have htake : c.rest.take 3 = part :=
    List.append_cancel_right ((List.take_append_drop 3 c.rest).trans hrest)
  rwa [htake] at hx

theorem ends_name (context : Context) (h : c.At text start)
    (hc : ∀ x ∈ c.rest.head?, isBreak x = false) :
    Ends (Fault.Lies text) (fun r => r.2.At text c.mark) (name context c) := by
  have hstop : (c.next.dropWhile isWord).At text c.mark :=
    (h.here.next hc).dropWhile fun _ => not_isBreak_of_isWord
  exact .ite (fun _ => hstop.lies _ _) fun _ => hstop

variable (context : Context)

theorem ends_trailingOctets (count : Nat) (h : c.At text start) :
    Ends (Fault.Lies text) (fun r => r.2.At text start)
      (trailingOctets context start count c) := by
  induction count generalizing c with
  | zero => exact h
  | succ count ih =>
    unfold trailingOctets
    split
    · exact h.lies _ _
    · rename_i octet hoctet
      refine .ite (fun _ => ?_) fun _ => h.lies _ _
      exact (ih (at_octet h hoctet)).bind fun ⟨octets, stop⟩ hstop => hstop

theorem ends_escaped (h : c.At text start) :
    Ends (Fault.Lies text) (fun r => r.2.At text start) (escaped context start c) := by
  unfold escaped
  split
  · exact h.lies _ _
  · rename_i lead hlead
    split
    · exact h.lies _ _
    · exact (ends_trailingOctets context _ (at_octet h hlead)).bind fun ⟨_, _⟩ hstop => hstop

variable (flow : Bool)

theorem ends_uriFrom (limit : Nat) (h : c.At text start) (found : TagText) :
    Ends (Fault.Lies text) (fun r => r.2.At text start)
      (uriFrom flow context start limit c found) := by
  induction limit generalizing c found with
  | zero => exact h
  | succ limit ih =>
    unfold uriFrom
    split
    · exact h
    · rename_i x after hrest
      refine .ite (fun _ => ?_) fun _ => .ite (fun huri => ?_) fun _ => h
      · exact (ends_escaped context h).bind fun ⟨y, stop⟩ hstop => ih hstop _
      · refine ih (h.next fun y hy => ?_) _
        obtain rfl : x = y := by simpa [hrest] using hy
        exact not_isBreak_of_isUri huri

theorem ends_uri (head : List Char) (h : c.At text start) :
    Ends (Fault.Lies text) (fun r => r.2.At text start) (uri flow context start head c) := by
  refine (ends_uriFrom context flow _ h _).bind fun ⟨found, stop⟩ hstop => ?_
  dsimp only
  split
  · exact hstop.lies _ _
  · exact hstop

theorem ends_handle (h : c.At text start) :
    Ends (Fault.Lies text) (fun r => r.2.At text start) (handle context start c) := by
  refine .ite (fun hpeek => ?_) fun _ => h.lies _ _
  have hword : (c.next.dropWhile isWord).At text start :=
    (h.next_of_peek hpeek rfl).dropWhile fun _ => not_isBreak_of_isWord
  exact .ite (fun hclosed => hword.next_of_peek hclosed rfl) fun _ => hword

theorem ends_tag (h : c.At text start) (hc : ∃ after, c.rest = '!' :: after) :
    Ends (Fault.Lies text) (fun r => r.2.At text c.mark) (tag flow c) := by
  obtain ⟨after, hrest⟩ := hc
  have hhere := h.here
  unfold tag
  extract_lets finish
  -- Both forms of a tag share what comes behind them.
  have hfinish : ∀ r, r.2.At text c.mark →
      Ends (Fault.Lies text) (fun r => r.2.At text c.mark) (finish r) := by
    rintro ⟨⟨found, suffix⟩, stop⟩ hstop
    exact .ite (fun _ => hstop) fun _ => hstop.lies _ _
  refine .ite (fun hpeek => ?_) fun _ => ?_
  · -- A tag in angle brackets.
    obtain ⟨later, hafter⟩ : ∃ later, after = '<' :: later := by
      rw [peek?, next_rest hrest] at hpeek
      exact List.head?_eq_some_iff.mp hpeek
    have hopen : (c.forward 2).At text c.mark := by
      refine hhere.forward (by simp [hrest, hafter]) fun x hx => ?_
      rcases (by simpa [hrest, hafter] using hx : x = '!' ∨ x = '<') with rfl | rfl <;> rfl
    refine (ends_uri .tagUri true [] hopen).bind fun ⟨suffix, stop⟩ hstop => ?_
    exact .ite (fun hclose => hfinish (([], suffix), stop.next) (hstop.next_of_peek hclose rfl))
      fun _ => hstop.lies _ _
  · refine (ends_handle .tag hhere).bind fun ⟨found, stop⟩ hstop => ?_
    refine .ite (fun _ => ?_) fun _ => ?_
    · exact (ends_uri .tagUri false [] hstop).bind fun ⟨suffix, close⟩ hclose =>
        hfinish ((found, suffix), close) hclose
    · exact (ends_uri .tagUri false found hstop).bind fun ⟨suffix, close⟩ hclose =>
        hfinish (split suffix, close) hclose

end Property

/-! ### Directives -/

namespace Directive

theorem ends_name (h : c.At text start) :
    Ends (Fault.Lies text) (fun r => r.2.At text start) (name start c) := by
  have hstop : (c.dropWhile isWord).At text start := h.dropWhile fun _ => not_isBreak_of_isWord
  exact .ite (fun _ => hstop.lies _ _) fun _ => .ite (fun _ => hstop) fun _ => hstop.lies _ _

theorem ends_number (h : c.At text start) :
    Ends (Fault.Lies text) (fun r => r.2.At text start) (number start c) := by
  have hstop : (c.dropWhile Char.isDigit).At text start :=
    h.dropWhile fun _ => not_isBreak_of_isDigit
  refine .ite (fun hlong => ?_) fun _ => .ite (fun _ => h.lies _ _) fun _ => hstop
  -- The fault lies behind the ninth digit, and there are more.
  have hprefix : c.takeWhile Char.isDigit <+: c.rest := List.takeWhile_prefix _
  refine At.lies (h.forward (Nat.le_of_lt (hlong.trans_le hprefix.length_le)) fun x hx => ?_) _ _
  have htake : c.rest.take 9 <+: c.takeWhile Char.isDigit :=
    List.prefix_of_prefix_length_le (List.take_prefix 9 c.rest) hprefix
      ((List.length_take_le 9 c.rest).trans hlong.le)
  exact not_isBreak_of_isDigit (List.mem_takeWhile_imp (htake.subset hx))

theorem ends_version (h : c.At text start) :
    Ends (Fault.Lies text) (fun r => r.2.At text start) (version start c) := by
  refine (ends_number h.skipBlanks).bind fun ⟨major, dot⟩ hdot => ?_
  refine .ite (fun hpeek => ?_) fun _ => hdot.lies _ _
  exact (ends_number (hdot.next_of_peek hpeek rfl)).bind fun ⟨minor, stop⟩ hstop => hstop

theorem ends_tagHandle (h : c.At text start) :
    Ends (Fault.Lies text) (fun r => r.2.At text start) (tagHandle start c) := by
  refine (Property.ends_handle .tagDirectiveHandle h.skipBlanks).bind fun ⟨found, gap⟩ hgap => ?_
  dsimp only
  split
  · exact hgap.lies _ _
  · split
    · exact hgap.lies _ _
    · refine (Property.ends_uri .tagDirectiveUri true [] hgap.skipBlanks).bind ?_
      rintro ⟨expansion, stop⟩ hstop
      exact .ite (fun _ => hstop) fun _ => hstop.lies _ _

theorem ends_lineEnd (h : c.At text start) :
    Ends (Fault.Lies text) (fun next => next.At text start) (lineEnd start c) := by
  have hstop : c.skipBlanks.skipComment.At text start := h.skipBlanks.skipComment
  exact .ite (fun _ => hstop.newline) fun _ => hstop.lies _ _

/-- A directive ends in its line, and the cursor then stands on the next one. -/
theorem ends_scan (h : c.At text start) (hc : ∀ x ∈ c.rest.head?, isBreak x = false) :
    Ends (Fault.Lies text)
      (fun r => r.1.start = c.mark ∧ r.1.stop.Inside text ∧ r.2.At text c.mark) (scan c) := by
  refine (ends_name (h.here.next hc)).bind fun ⟨found, named⟩ hnamed => ?_
  have hend : ∀ token stop, stop.At text c.mark →
      Ends (Fault.Lies text)
        (fun r : Lexeme × Cursor =>
          r.1.start = c.mark ∧ r.1.stop.Inside text ∧ r.2.At text c.mark)
        (lineEnd c.mark stop >>= fun next => pure (⟨token, c.mark, stop.mark⟩, next)) :=
    fun token stop hstop => (ends_lineEnd hstop).bind fun next hnext => ⟨rfl, hstop.inside, hnext⟩
  refine .ite (fun _ => ?_) fun _ => .ite (fun _ => ?_) fun _ => hnamed.lies _ _
  · exact (ends_version hnamed).bind fun ⟨token, stop⟩ hstop => hend token stop hstop
  · exact (ends_tagHandle hnamed).bind fun ⟨token, stop⟩ hstop => hend token stop hstop

end Directive

/-! ### Scalars -/

variable {chars rest : List Char} {mark : Mark}

/-- A fault at a mark that a reader of characters has reached. -/
theorem Cursor.At.lies_mark (h : At text start ⟨chars, mark⟩) (problem : Problem)
    (context : Context) : Fault.Lies text ⟨problem, mark, some (context, start)⟩ :=
  h.lies problem context

namespace Plain

theorem ends_scanFrom (flow : Bool) (indent : Int) (p : Partial)
    (h : At text start ⟨chars, mark⟩) :
    Ends (Fault.Lies text) (fun r => r.2.At text start)
      (scanFrom flow indent start chars mark p) := by
  fun_induction scanFrom flow indent start chars mark p with
  | case1 mark p => exact h
  | case2 rest mark p ih => exact ih h.mark_pairedNewline
  | case3 c rest mark p hpair hbreak ih => exact ih (h.mark_newline hbreak hpair)
  | case4 c rest mark p hpair hbreak hblank htab => exact h.lies_mark _ _
  | case5 c rest mark p hpair hbreak hblank htab ih =>
    exact ih (h.mark_next (not_isBreak_of_isBlank hblank))
  | case6 c rest mark p hpair hbreak hblank hstop => exact h
  | case7 c rest mark p hpair hbreak hblank hstop hstray => exact h.lies_mark _ _
  | case8 c rest mark p hpair hbreak hblank hstop hstray hend => exact h
  | case9 c rest mark p hpair hbreak hblank hstop hstray hend ih =>
    exact ih (h.mark_next (eq_false_of_ne_true hbreak))

theorem ends_scan (flow : Bool) (indent : Int) (h : c.At text start) :
    Ends (Fault.Lies text) (fun r => r.2.1.At text c.mark) (scan flow indent c) :=
  (ends_scanFrom flow _ {} h.here).bind fun ⟨_, _⟩ hstop => hstop

end Plain

namespace Quoted

theorem ends_singleFrom (p : Partial) (h : At text start ⟨chars, mark⟩) :
    Ends (Fault.Lies text) (fun r => r.2.At text start) (singleFrom start chars mark p) := by
  fun_induction singleFrom start chars mark p with
  | case1 mark p => exact h.lies_mark _ _
  | case2 rest mark p ih => exact ih h.mark_pairedNewline
  | case3 rest mark p ih => exact ih (h.mark_forward ['\'', '\''] (by simp [isBreak]))
  | case4 c rest mark p hpair hquote hbreak ih => exact ih (h.mark_newline hbreak hpair)
  | case5 c rest mark p hpair hquote hbreak hblank ih =>
    exact ih (h.mark_next (not_isBreak_of_isBlank hblank))
  | case6 c rest mark p hpair hquote hbreak hblank hdocument => exact h.lies_mark _ _
  | case7 rest mark p hpair hquote hbreak hblank hdocument => exact h.mark_next rfl
  | case8 c rest mark p hpair hquote hbreak hblank hdocument hend ih =>
    exact ih (h.mark_next (eq_false_of_ne_true hbreak))

theorem not_isBreak_of_digits {digits : List Char} {n : Nat}
    (h : Text.hexValue? digits = some n) {x : Char} (hx : x ∈ digits) : isBreak x = false := by
  induction digits using List.reverseRecOn generalizing n with
  | nil => exact absurd hx List.not_mem_nil
  | append_singleton before last ih =>
    rw [Text.hexValue?, List.foldl_append] at h
    obtain ⟨m, hbefore, h⟩ := Option.bind_eq_some_iff.mp h
    obtain ⟨k, hlast, -⟩ := Option.bind_eq_some_iff.mp h
    rcases List.mem_append.mp hx with hx | hx
    · exact ih hbefore hx
    · exact List.mem_singleton.mp hx ▸ not_isBreak_of_hexDigit? hlast

theorem not_isBreak_of_escape {letter : Char} (h : isBreak letter = false) :
    ∀ x ∈ ['\\', letter], isBreak x = false :=
  List.forall_mem_cons.mpr ⟨rfl, List.forall_mem_singleton.mpr h⟩

theorem at_escape {letter : Char} (h : At text start ⟨'\\' :: letter :: rest, mark⟩)
    (hletter : isBreak letter = false) : At text start ⟨rest, mark.forward 2⟩ :=
  h.mark_forward ['\\', letter] (not_isBreak_of_escape hletter)

/-- An escape of digits is over where they are; a fault in it lies where they begin. -/
theorem ends_escapedCode {letter : Char} (digits : List Char)
    {next : Char → Except Fault (Partial × Cursor)}
    (h : At text start ⟨'\\' :: letter :: (digits ++ rest), mark⟩)
    (hletter : isBreak letter = false)
    (hnext : At text start ⟨rest, mark.forward (digits.length + 2)⟩ →
      ∀ x, Ends (Fault.Lies text) (fun r => r.2.At text start) (next x)) :
    Ends (Fault.Lies text) (fun r => r.2.At text start)
      (escapedCode digits (mark.forward 2) start >>= next) := by
  have hbegin : At text start ⟨digits ++ rest, mark.forward 2⟩ := at_escape h hletter
  unfold escapedCode
  split
  · exact hbegin.lies_mark _ _
  · rename_i n hvalue
    split
    · exact hbegin.lies_mark _ _
    · refine hnext (h.mark_forward ('\\' :: letter :: digits) fun x hx => ?_) _
      rcases List.mem_append.mp (show x ∈ ['\\', letter] ++ digits from hx) with hx | hx
      · exact not_isBreak_of_escape hletter x hx
      · exact not_isBreak_of_digits hvalue hx

theorem ends_doubleFrom (p : Partial) (h : At text start ⟨chars, mark⟩) :
    Ends (Fault.Lies text) (fun r => r.2.At text start) (doubleFrom start chars mark p) := by
  fun_induction doubleFrom start chars mark p with
  | case1 mark p => exact h.lies_mark _ _
  | case2 rest mark p ih => exact ih h.mark_pairedNewline
  | case3 rest mark p ih =>
    exact ih (h.mark_forward ['\\'] (by simp [isBreak])).mark_pairedNewline
  | case4 d1 d2 rest mark p ih =>
    exact ends_escapedCode [d1, d2] h rfl fun hrest x => ih x hrest
  | case5 d1 d2 d3 d4 rest mark p ih =>
    exact ends_escapedCode [d1, d2, d3, d4] h rfl fun hrest x => ih x hrest
  | case6 d1 d2 d3 d4 d5 d6 d7 d8 rest mark p ih =>
    exact ends_escapedCode [d1, d2, d3, d4, d5, d6, d7, d8] h rfl
      fun hrest x => ih x hrest
  | case7 c rest mark p hpair _ _ _ hbreak ih =>
    exact ih ((h.mark_forward ['\\'] (by simp [isBreak])).mark_newline hbreak hpair)
  | case8 c rest mark p _ _ _ _ hbreak hletter =>
    exact (at_escape h (eq_false_of_ne_true hbreak)).lies_mark _ _
  | case9 c rest mark p _ _ _ _ hbreak _ e _ ih =>
    exact ih (at_escape h (eq_false_of_ne_true hbreak))
  | case10 c rest mark p => exact h.lies_mark _ _
  | case11 c rest mark p hpair _ _ _ _ _ hbreak ih => exact ih (h.mark_newline hbreak hpair)
  | case12 c rest mark p _ _ _ _ _ _ _ hblank ih =>
    exact ih (h.mark_next (not_isBreak_of_isBlank hblank))
  | case13 c rest mark p => exact h.lies_mark _ _
  | case14 rest mark p => exact h.mark_next rfl
  | case15 rest mark p => exact h.lies_mark _ _
  | case16 c rest mark p _ _ _ _ _ _ hbreak _ _ _ _ ih =>
    exact ih (h.mark_next (eq_false_of_ne_true hbreak))

theorem at_open (h : c.At text start) (hc : ∀ x ∈ c.rest.head?, isBreak x = false)
    (hrest : c.rest ≠ []) : At text c.mark ⟨c.rest.tail, c.mark.forward 1⟩ := by
  obtain ⟨x, rest, hrest⟩ := List.exists_cons_of_ne_nil hrest
  exact h.here.along [x] (by rw [hrest]; rfl) (by simpa [hrest] using hc) rfl rfl

theorem ends_single (h : c.At text start) (hc : ∀ x ∈ c.rest.head?, isBreak x = false)
    (hrest : c.rest ≠ []) :
    Ends (Fault.Lies text) (fun r => r.2.At text c.mark) (single c) :=
  (ends_singleFrom {} (at_open h hc hrest)).bind fun ⟨_, _⟩ hstop => hstop

theorem ends_double (h : c.At text start) (hc : ∀ x ∈ c.rest.head?, isBreak x = false)
    (hrest : c.rest ≠ []) :
    Ends (Fault.Lies text) (fun r => r.2.At text c.mark) (double c) :=
  (ends_doubleFrom {} (at_open h hc hrest)).bind fun ⟨_, _⟩ hstop => hstop

end Quoted

namespace Block

theorem ends_header (h : c.At text start) :
    Ends (Fault.Lies text) (fun r => r.2.At text start) (header c start) := by
  unfold header
  -- The digit may come before the sign of chomping or behind it.
  extract_lets digit
  have hdigit : ∀ chomping (d : Cursor), d.At text start →
      Ends (Fault.Lies text) (fun r => r.2.At text start) (digit chomping d) := by
    intro chomping d hd
    dsimp only [digit]
    split
    · rename_i x after hrest
      refine .ite (fun _ => hd.lies _ _) fun _ => .ite (fun hx => ?_) fun _ => hd
      exact hd.next_of_peek (by rw [peek?, hrest]; rfl) (not_isBreak_of_isDigit hx)
    · exact hd
  have hsign : ∀ {x : Char} {chomping : Chomping}, chomping? x = some chomping →
      isBreak x = false := by
    intro x chomping hx
    exact not_isBreak_of (p := fun x => (chomping? x).isSome) (by decide) (by simp [hx])
  split
  · exact h
  · rename_i x after hrest
    split
    · rename_i chomping hx
      exact hdigit _ _ (h.next_of_peek (by rw [peek?, hrest]; rfl) (hsign hx))
    · refine (hdigit _ _ h).bind fun ⟨found, body⟩ hbody => ?_
      dsimp only
      split
      · rename_i y after hrest
        split
        · rename_i chomping hy
          exact hbody.next_of_peek (by rw [peek?, hrest]; rfl) (hsign hy)
        · exact hbody
      · exact hbody

theorem ends_headerEnd (h : c.At text start) :
    Ends (Fault.Lies text) (fun next => next.At text start) (headerEnd c start) := by
  have hstop : c.skipBlanks.skipComment.At text start := h.skipBlanks.skipComment
  exact .ite (fun _ => hstop.newline) fun _ => hstop.lies _ _

theorem ends_scanFrom (folded : Bool) (indent : Int) (phase : Phase) (p : Partial)
    (h : At text start ⟨chars, mark⟩) :
    Ends (Fault.Lies text) (fun r => r.2.At text start)
      (scanFrom folded indent start chars mark phase p) := by
  fun_induction scanFrom folded indent start chars mark phase p with
  | case1 mark phase p => exact h
  | case2 rest mark depth p ih => exact ih h.mark_pairedNewline
  | case3 rest mark depth deepest p ih => exact ih h.mark_pairedNewline
  | case4 c rest mark depth p hpair hbreak ih => exact ih (h.mark_newline hbreak hpair)
  | case5 c rest mark depth p hpair hbreak ih =>
    exact ih (h.mark_next (eq_false_of_ne_true hbreak))
  | case6 c rest mark depth deepest p hpair hspace ih =>
    exact ih (h.mark_next (hspace.1 ▸ rfl))
  | case7 c rest mark depth deepest p hpair hspace htab => exact h.lies_mark _ _
  | case8 c rest mark depth deepest p hpair hspace htab hbreak ih =>
    exact ih (h.mark_newline hbreak hpair)
  | case9 c rest mark depth deepest p hpair hspace htab hbreak settled hcolumn joined ih =>
    exact ih (h.mark_next (eq_false_of_ne_true hbreak))
  | case10 c rest mark depth deepest p hpair hspace htab hbreak settled hcolumn => exact h

theorem ends_scan (folded : Bool) (indent : Int) (h : c.At text start)
    (hc : ∀ x ∈ c.rest.head?, isBreak x = false) :
    Ends (Fault.Lies text) (fun r => r.2.At text c.mark) (scan folded indent c) := by
  refine (ends_header (h.here.next hc)).bind fun ⟨found, line⟩ hline => ?_
  refine (ends_headerEnd hline).bind fun body hbody => ?_
  exact (ends_scanFrom folded indent _ {} hbody).bind fun ⟨_, _⟩ hstop => hstop

end Block

end CollectorTemplate.Yaml
