/-
The line test.

The test reads a text line by line and keeps one flag, which a directive sets and the marker that
begins a document takes back.  Said of the whole text this is a condition on pairs of lines: behind
each directive comes such a marker.  What a line is does not depend on its comment, and a line that
is nothing else than a comment is passed over.

* `Text.go_append` : how the lines of a text go on behind its front;
* `Fragment.octets_stripComment` : where a comment begins, among the octets of its line;
* `Fragment.blankLines_eq_true_iff` : which lines are blank, by induction on the lines for any flag;
* `Fragment.LooksBlank`, `Fragment.isBlank_iff` : which texts are blank;
* `Fragment.Annotates` : a text with a line without content more, or with a comment more;
* `Fragment.isBlank_characterised` : which texts are blank, with the place of comments among octets,
  and that no such line or comment makes a difference.
-/
import CollectorTemplate.Proofs.Blank
import CollectorTemplate.Proofs.Octets
import Mathlib.Logic.Relation

namespace CollectorTemplate

/-! ### Lines of a text -/

namespace Text

/-- White space at the end does not count. -/
theorem trim_append_white (text : List Char) {white : List Char}
    (h : ∀ c ∈ white, isSpace c = true) : trim (text ++ white) = trim text := by
  have hreverse : ∀ c ∈ white.reverse, isSpace c = true := fun c hc => h c (List.mem_reverse.mp hc)
  rw [trim, trim, List.dropWhile_append]
  split
  · rename_i hempty
    rw [List.dropWhile_eq_nil_iff.mpr h, List.isEmpty_iff.mp hempty]
  · rw [List.reverse_append, List.dropWhile_append_of_pos hreverse]

/-- The lines of a text go on behind a front as they do behind the line that was begun there: none
was if a line feed is the last character, and what was begun before if there is no front. -/
theorem go_append (front line : List Char) :
    ∃ first begun, (∀ rest, lines.go (front ++ rest) line = first ++ lines.go rest begun) ∧
      (front.getLast? = none → begun = line) ∧ (front.getLast? = some '\n' → begun = []) := by
  induction front generalizing line with
  | nil => exact ⟨[], line, fun _ => rfl, fun _ => rfl, nofun⟩
  | cons c front ih =>
    have hnone : (c :: front).getLast? ≠ none := by simp
    -- The last character is that of the rest, or `c` if there is none.
    have hlast : (c :: front).getLast? = some '\n' →
        front.getLast? = some '\n' ∨ front.getLast? = none ∧ c = '\n' := by
      rw [List.getLast?_cons]
      cases front.getLast? with
      | none => exact fun h => .inr ⟨rfl, Option.some.inj h⟩
      | some d => exact .inl
    by_cases hc : c = '\n'
    · obtain ⟨first, begun, hgo, hnil, hfeed⟩ := ih []
      refine ⟨dropReturn line.reverse :: first, begun, fun rest => ?_, fun h => absurd h hnone,
        fun h => (hlast h).elim hfeed fun h => hnil h.1⟩
      rw [List.cons_append, lines.go, if_pos hc, hgo]
      rfl
    · obtain ⟨first, begun, hgo, -, hfeed⟩ := ih (c :: line)
      refine ⟨first, begun, fun rest => ?_, fun h => absurd h hnone,
        fun h => (hlast h).elim hfeed fun h => absurd h.2 hc⟩
      rw [List.cons_append, lines.go, if_neg hc, hgo]

/-- A line without line feeds is read up to its end. -/
theorem go_line {line : List Char} (h : '\n' ∉ line) (begun rest : List Char) :
    lines.go (line ++ rest) begun = lines.go rest (line.reverse ++ begun) := by
  induction line generalizing begun with
  | nil => rfl
  | cons c line ih =>
    obtain ⟨hc, hline⟩ := not_or.mp (List.mem_cons.not.mp h)
    rw [List.cons_append, lines.go, if_neg (Ne.symm hc), ih hline, List.reverse_cons,
      List.append_assoc]
    rfl

/-- What ends a line: LF, with or without a CR before it. -/
def IsLineEnd (ending : List Char) : Prop := ending = ['\n'] ∨ ending = ['\r', '\n']

/-- Where a line ends, it is a line of its own, but perhaps for a CR at its end. -/
theorem IsLineEnd.go_eq {ending : List Char} (h : IsLineEnd ending) (begun rest : List Char) :
    ∃ line, lines.go (ending ++ rest) begun = line :: lines rest ∧
      ∃ white, (∀ c ∈ white, c = '\r') ∧ begun.reverse = line ++ white := by
  rcases h with rfl | rfl
  · refine ⟨dropReturn begun.reverse, rfl, ?_⟩
    unfold dropReturn
    split
    · rename_i hlast
      exact ⟨['\r'], by simp, (List.dropLast_append_getLast? '\r' hlast).symm⟩
    · exact ⟨[], nofun, (List.append_nil _).symm⟩
  · refine ⟨begun.reverse, ?_, [], nofun, (List.append_nil _).symm⟩
    show dropReturn ('\r' :: begun).reverse :: _ = _
    rw [List.reverse_cons, dropReturn, if_pos List.getLast?_concat, List.dropLast_concat]
    rfl

end Text

namespace Fragment

/-! ### What a line is -/

/-- A line without its comment and the white space around it. -/
def bare (line : List Char) : List Char := Text.trim (stripComment true line)

theorem blankLine?_eq (line : List Char) : blankLine? line =
    if bare line = [] ∨ bare line = ['.', '.', '.'] then some .nothing
    else if bare line = ['-', '-', '-'] then some .start
    else if (bare line).head? = some '%' then some .directive
    else none := rfl

theorem blankLine?_congr {line line' : List Char} (h : bare line = bare line') :
    blankLine? line = blankLine? line' := by
  rw [blankLine?_eq, blankLine?_eq, h]

theorem blankLine?_eq_start_iff (line : List Char) :
    blankLine? line = some .start ↔ bare line = ['-', '-', '-'] := by
  rw [blankLine?_eq]
  split
  · rename_i h
    rcases h with h | h <;> simp [h]
  · split
    · simp_all
    · split <;> simp_all

/-- Neither nothing nor a marker begins with a percent sign. -/
theorem blankLine?_eq_directive_iff (line : List Char) :
    blankLine? line = some .directive ↔ (bare line).head? = some '%' := by
  rw [blankLine?_eq]
  split
  · rename_i h
    rcases h with h | h <;> simp [h]
  · split
    · simp_all
    · split <;> simp_all

theorem blankLine?_ne_none_iff (line : List Char) :
    blankLine? line ≠ none ↔ bare line = [] ∨ bare line = ['.', '.', '.'] ∨
      bare line = ['-', '-', '-'] ∨ (bare line).head? = some '%' := by
  rw [blankLine?_eq, ← or_assoc]
  split
  · simp_all
  · split
    · simp_all
    · split <;> simp_all

theorem blankLine?_of_bare {line : List Char} (h : bare line = []) :
    blankLine? line = some .nothing := by
  unfold bare at h
  rw [blankLine?, h]
  rfl

/-- Of what follows on a line, a comment in it apart, all is kept or, behind a comment, nothing. -/
theorem stripComment_append (space : Bool) (line more : List Char) :
    ∃ kept, stripComment space (line ++ more) = stripComment space line ++ kept ∧
      (kept = [] ∨ ∃ space', kept = stripComment space' more) := by
  induction line generalizing space with
  | nil => exact ⟨_, rfl, .inr ⟨space, rfl⟩⟩
  | cons c line ih =>
    rw [List.cons_append, stripComment, stripComment]
    split
    · exact ⟨[], rfl, .inl rfl⟩
    · obtain ⟨kept, hstrip, hkept⟩ := ih (Text.isAsciiSpace c)
      exact ⟨kept, congrArg (c :: ·) hstrip, hkept⟩

theorem bare_append {more : List Char}
    (h : ∀ space, ∀ c ∈ stripComment space more, Text.isSpace c = true) (line : List Char) :
    bare (line ++ more) = bare line := by
  obtain ⟨kept, hstrip, hkept⟩ := stripComment_append true line more
  rw [bare, hstrip]
  refine Text.trim_append_white _ fun c hc => ?_
  rcases hkept with rfl | ⟨space, rfl⟩
  · nomatch hc
  · exact h space c hc

/-- A comment that follows on a space does not change what a line is. -/
theorem bare_comment (line comment : List Char) :
    bare (line ++ ' ' :: '#' :: comment) = bare line := by
  refine bare_append (fun space c hc => ?_) line
  have hstrip : stripComment space (' ' :: '#' :: comment) = [' '] := by
    cases space <;> rfl
  rw [hstrip, List.mem_singleton] at hc
  rw [hc]
  rfl

/-- Nor do carriage returns. -/
theorem bare_returns {white : List Char} (h : ∀ c ∈ white, c = '\r') (line : List Char) :
    bare (line ++ white) = bare line := by
  refine bare_append (fun space c hc => ?_) line
  obtain ⟨comment, hsplit, -⟩ := stripComment_spec space white
  have hmem : c ∈ white := by
    rw [hsplit]
    exact List.mem_append_left _ hc
  rw [h c hmem]
  rfl

/-! ### The flag -/

/-- What holds of every part of a list with what follows on it. -/
theorem forall_split_cons {α : Type} {p : α → List α → Prop} {a : α} {rest : List α} :
    (∀ before b after, a :: rest = before ++ b :: after → p b after) ↔
      p a rest ∧ ∀ before b after, rest = before ++ b :: after → p b after := by
  constructor
  · intro h
    exact ⟨h [] a rest rfl, fun before b after hrest =>
      h (a :: before) b after (by rw [hrest]; rfl)⟩
  · rintro ⟨ha, hrest⟩ before b after hsplit
    cases before with
    | nil =>
      obtain ⟨rfl, rfl⟩ := List.cons.inj hsplit
      exact ha
    | cons c before => exact hrest before b after (List.cons.inj hsplit).2

/-- Lines are blank if none has content, and a marker that begins a document comes behind each
directive, and behind the one that dangles at the beginning, if one does. -/
theorem blankLines_eq_true_iff (dangling : Bool) (lines : List (List Char)) :
    blankLines dangling lines = true ↔ (∀ line ∈ lines, blankLine? line ≠ none) ∧
      (dangling = true → ∃ line ∈ lines, blankLine? line = some .start) ∧
      ∀ before line after, lines = before ++ line :: after → blankLine? line = some .directive →
        ∃ later ∈ after, blankLine? later = some .start := by
  induction lines generalizing dangling with
  | nil => simp [blankLines]
  | cons line lines ih =>
    rw [blankLines, forall_split_cons, List.forall_mem_cons,
      List.exists_mem_cons_iff]
    cases hline : blankLine? line with
    | none => simp
    | some kind =>
      cases kind with
      | nothing =>
        rw [ih]
        simp
      | start =>
        rw [ih]
        simp
      | directive =>
        -- The new directive dangles whether or not one did before.
        rw [ih]
        simp only [ne_eq, reduceCtorEq, not_false_eq_true, true_and, forall_const,
          Option.some.injEq, false_or]
        tauto

/-- Each line of a text, without its comment and the white space around it, is empty, a marker or a
directive, and behind each directive comes a marker that begins a document. -/
def LooksBlank (text : List Char) : Prop :=
  (∀ line ∈ Text.lines text, bare line = [] ∨ bare line = ['.', '.', '.'] ∨
    bare line = ['-', '-', '-'] ∨ (bare line).head? = some '%') ∧
  ∀ before line after, Text.lines text = before ++ line :: after →
    (bare line).head? = some '%' → ∃ later ∈ after, bare later = ['-', '-', '-']

theorem isBlank_iff (raw : String) : isBlank raw = true ↔ LooksBlank raw.toList := by
  rw [isBlank, blankLines_eq_true_iff, LooksBlank]
  simp only [blankLine?_ne_none_iff, blankLine?_eq_directive_iff, blankLine?_eq_start_iff,
    Bool.false_eq_true, false_implies, true_and]

/-! ### Comments among octets -/

/-- The octets of white space of ASCII, the vertical tab apart. -/
def isSpaceOctet (o : UInt8) : Bool := [0x20, 0x09, 0x0a, 0x0c, 0x0d].contains o

/-- A comment may begin at an octet: it is that of a number sign, and in front of it stands white
space of ASCII, or nothing, if `space` says that this counts. -/
def CommentAt (space : Bool) (octets : List UInt8) (i : Nat) : Prop :=
  octets[i]? = some 0x23 ∧
    match i with
    | 0 => space = true
    | j + 1 => octets[j]?.any isSpaceOctet = true

/-- The octets of a line up to its comment. -/
def stripOctets : (space : Bool) → List UInt8 → List UInt8
  | _, [] => []
  | space, o :: rest => if space ∧ o = 0x23 then [] else o :: stripOctets (isSpaceOctet o) rest

theorem commentAt_succ (space : Bool) (o : UInt8) (rest : List UInt8) (i : Nat) :
    CommentAt space (o :: rest) (i + 1) ↔ CommentAt (isSpaceOctet o) rest i := by
  cases i with
  | zero => rfl
  | succ i => rfl

/-- The comment begins at the first octet where one may begin. -/
theorem stripOctets_spec (space : Bool) (octets : List UInt8) :
    ∃ start, stripOctets space octets = octets.take start ∧
      (∀ i < start, ¬CommentAt space octets i) ∧
      (start = octets.length ∨ CommentAt space octets start) := by
  induction octets generalizing space with
  | nil => exact ⟨0, rfl, nofun, .inl rfl⟩
  | cons o rest ih =>
    rw [stripOctets]
    split
    · rename_i h
      obtain ⟨hspace, rfl⟩ := h
      exact ⟨0, rfl, nofun, .inr ⟨rfl, hspace⟩⟩
    · rename_i h
      obtain ⟨start, hstrip, hbefore, hstart⟩ := ih (isSpaceOctet o)
      refine ⟨start + 1, congrArg (o :: ·) hstrip, fun i hi => ?_, ?_⟩
      · cases i with
        | zero => exact fun hat => h ⟨hat.2, Option.some.inj hat.1⟩
        | succ i =>
          rw [commentAt_succ]
          exact hbefore i (Nat.lt_of_succ_lt_succ hi)
      · rw [commentAt_succ]
        exact hstart.imp_left (congrArg (· + 1))

/-- A character of ASCII is one octet, and another is octets that are not of ASCII. -/
theorem encode_cases (c : Char) :
    (c.toNat < 128 ∧ String.utf8EncodeChar c = [UInt8.ofNat c.toNat]) ∨
      (128 ≤ c.toNat ∧ ∀ o ∈ String.utf8EncodeChar c, 128 ≤ o.toNat) := by
  have hbound : c.val.toNat < 0x110000 := by
    rcases c.valid with h | h
    · omega
    · exact h.2
  have hval : c.toNat = c.val.toNat := rfl
  rw [String.utf8EncodeChar, hval]
  generalize c.val.toNat = v at hbound
  split_ifs with hone
  · exact .inl ⟨by omega, rfl⟩
  all_goals
    refine .inr ⟨by omega, fun o ho => ?_⟩
    simp only [List.mem_cons, List.not_mem_nil, or_false] at ho
    rcases ho with rfl | rfl | rfl | rfl <;> simp only [UInt8.toNat_ofNat'] <;> omega

/-- In ASCII the octet of a character says what the character is. -/
theorem octet_ascii {c : Char} (h : c.toNat < 128) :
    (UInt8.ofNat c.toNat = 0x23 ↔ c = '#') ∧
      isSpaceOctet (UInt8.ofNat c.toNat) = Text.isAsciiSpace c := by
  have hall : ∀ n < 128, (UInt8.ofNat n = 0x23 ↔ Char.ofNat n = '#') ∧
      isSpaceOctet (UInt8.ofNat n) = Text.isAsciiSpace (Char.ofNat n) := by
    decide +kernel
  have hc := hall c.toNat h
  rwa [Char.ofNat_toNat] at hc

theorem not_ascii {c : Char} (h : 128 ≤ c.toNat) : Text.isAsciiSpace c = false ∧ c ≠ '#' := by
  have hne : ∀ d : Char, d.toNat < 128 → c ≠ d := by
    rintro d hd rfl
    omega
  exact ⟨by simp [Text.isAsciiSpace, hne], hne '#' (by decide)⟩

/-- Octets that are not of ASCII are no part of a comment's beginning. -/
theorem stripOctets_append {octets rest : List UInt8} (h : ∀ o ∈ octets, 128 ≤ o.toNat)
    (hne : octets ≠ []) (space : Bool) :
    stripOctets space (octets ++ rest) = octets ++ stripOctets false rest := by
  induction octets generalizing space with
  | nil => exact absurd rfl hne
  | cons o octets ih =>
    obtain ⟨ho, hoctets⟩ := List.forall_mem_cons.mp h
    have hsign : o ≠ 0x23 := by
      rintro rfl
      exact absurd ho (by decide)
    have hspace : isSpaceOctet o = false := by
      have hall : ∀ o ∈ ([0x20, 0x09, 0x0a, 0x0c, 0x0d] : List UInt8), o.toNat < 128 := by
        decide +kernel
      rw [isSpaceOctet, List.contains_eq_mem, decide_eq_false_iff_not]
      intro hmem
      have := hall o hmem
      omega
    rw [List.cons_append, stripOctets, if_neg fun h => hsign h.2, hspace]
    cases octets with
    | nil => rfl
    | cons next octets => rw [ih hoctets (List.cons_ne_nil _ _)]; rfl

/-- A comment begins at the same place among characters and among octets. -/
theorem flatMap_stripComment (space : Bool) (line : List Char) :
    (stripComment space line).flatMap String.utf8EncodeChar =
      stripOctets space (line.flatMap String.utf8EncodeChar) := by
  induction line generalizing space with
  | nil => rfl
  | cons c line ih =>
    rw [stripComment, List.flatMap_cons]
    rcases encode_cases c with ⟨hc, hencode⟩ | ⟨hc, hencode⟩
    · obtain ⟨hsign, hspace⟩ := octet_ascii hc
      rw [hencode, List.singleton_append, stripOctets, hspace]
      by_cases hcomment : space = true ∧ c = '#'
      · rw [if_pos hcomment, if_pos ⟨hcomment.1, hsign.mpr hcomment.2⟩]
        rfl
      · rw [if_neg hcomment, if_neg fun h => hcomment ⟨h.1, hsign.mp h.2⟩, List.flatMap_cons,
          hencode, ih]
        rfl
    · obtain ⟨hspace, hsign⟩ := not_ascii hc
      rw [if_neg fun h => hsign h.2, List.flatMap_cons, ih, hspace,
        stripOctets_append hencode String.utf8EncodeChar_ne_nil]

/-- Among the octets of a line, its comment begins at the first number sign at the beginning of the
line or behind white space of ASCII. -/
theorem octets_stripComment (line : List Char) :
    ∃ start, Text.octets (.ofList (stripComment true line)) =
        (Text.octets (.ofList line)).take start ∧
      (∀ i < start, ¬CommentAt true (Text.octets (.ofList line)) i) ∧
      (start = (Text.octets (.ofList line)).length ∨
        CommentAt true (Text.octets (.ofList line)) start) := by
  rw [Text.octets_eq, Text.octets_eq, String.toList_ofList, String.toList_ofList,
    flatMap_stripComment]
  exact stripOctets_spec true _

/-! ### Lines and comments more -/

/-- The second text is the first with a line without content more, before another line or behind the
last, or with a comment more behind a line. -/
inductive Annotates : List Char → List Char → Prop
  | line {front line ending after : List Char} (hfront : ∀ c ∈ front.getLast?, c = '\n')
      (hline : '\n' ∉ line) (hbare : bare line = []) (hending : Text.IsLineEnd ending) :
      Annotates (front ++ after) (front ++ (line ++ (ending ++ after)))
  | lastLine {text ending line : List Char} (hending : Text.IsLineEnd ending)
      (hline : '\n' ∉ line) (hbare : bare line = []) : Annotates text (text ++ (ending ++ line))
  | comment {front ending after comment : List Char}
      (hending : ending = [] ∧ after = [] ∨ Text.IsLineEnd ending) (hcomment : '\n' ∉ comment) :
      Annotates (front ++ (ending ++ after))
        (front ++ (' ' :: '#' :: comment ++ (ending ++ after)))

theorem blankLines_append_congr {later later' : List (List Char)}
    (h : ∀ dangling, blankLines dangling later = blankLines dangling later')
    (front : List (List Char)) (dangling : Bool) :
    blankLines dangling (front ++ later) = blankLines dangling (front ++ later') := by
  induction front generalizing dangling with
  | nil => exact h dangling
  | cons line front ih => exact blankLines_congr ih line dangling

theorem blankLines_cons_congr {line line' : List Char} (h : bare line = bare line')
    (later : List (List Char)) (dangling : Bool) :
    blankLines dangling (line :: later) = blankLines dangling (line' :: later) := by
  rw [blankLines, blankLines, blankLine?_congr h]

theorem blankLines_cons_of_bare {line : List Char} (h : bare line = []) (later : List (List Char))
    (dangling : Bool) : blankLines dangling (line :: later) = blankLines dangling later := by
  rw [blankLines, blankLine?_of_bare h]

/-- A line that ends is what it was before its end. -/
theorem blankLines_go {ending : List Char} (h : Text.IsLineEnd ending) (begun rest : List Char)
    (dangling : Bool) : blankLines dangling (Text.lines.go (ending ++ rest) begun) =
      blankLines dangling (begun.reverse :: Text.lines rest) := by
  obtain ⟨line, hgo, white, hwhite, hbegun⟩ := h.go_eq begun rest
  rw [hgo, hbegun]
  exact blankLines_cons_congr (bare_returns hwhite line).symm _ _

theorem Annotates.blankLines_eq {text text' : List Char} (h : Annotates text text')
    (dangling : Bool) :
    blankLines dangling (Text.lines text') = blankLines dangling (Text.lines text) := by
  cases h with
  | @line front line ending after hfront hline hbare hending =>
    -- Nothing of a line was begun where the new one stands.
    obtain ⟨first, begun, hgo, hnil, hfeed⟩ := Text.go_append front []
    obtain rfl : begun = [] := by
      cases hlast : front.getLast? with
      | none => exact hnil hlast
      | some c => exact hfeed (by rw [hlast, hfront c hlast])
    rw [Text.lines, Text.lines, hgo, hgo, Text.go_line hline]
    refine blankLines_append_congr (fun dangling => ?_) first dangling
    rw [blankLines_go hending, List.append_nil, List.reverse_reverse,
      blankLines_cons_of_bare hbare]
    rfl
  | @lastLine _ ending line hending hline hbare =>
    obtain ⟨first, begun, hgo, -, -⟩ := Text.go_append text []
    have htext := hgo []
    rw [List.append_nil] at htext
    rw [Text.lines, Text.lines, hgo, htext]
    refine blankLines_append_congr (fun dangling => ?_) first dangling
    have hlast : Text.lines line = [line] := by
      have hline := Text.go_line hline [] []
      rw [List.append_nil, List.append_nil] at hline
      rw [Text.lines, hline, Text.lines.go, List.reverse_reverse]
    rw [blankLines_go hending, hlast]
    exact blankLines_congr (fun dangling => blankLines_cons_of_bare hbare [] dangling) _ _
  | @comment front ending after comment hending hcomment =>
    obtain ⟨first, begun, hgo, -, -⟩ := Text.go_append front []
    have hline : '\n' ∉ ' ' :: '#' :: comment := by simpa using hcomment
    rw [Text.lines, Text.lines, hgo, hgo, Text.go_line hline]
    refine blankLines_append_congr (fun dangling => ?_) first dangling
    have hbare : bare ((' ' :: '#' :: comment).reverse ++ begun).reverse = bare begun.reverse := by
      rw [List.reverse_append, List.reverse_reverse]
      exact bare_comment _ _
    rcases hending with ⟨rfl, rfl⟩ | hending
    · exact blankLines_cons_congr hbare [] dangling
    · rw [blankLines_go hending, blankLines_go hending]
      exact blankLines_cons_congr hbare _ dangling

theorem isBlank_of_annotates {raw raw' : String}
    (h : Relation.ReflTransGen Annotates raw.toList raw'.toList) : isBlank raw' = isBlank raw := by
  rw [isBlank, isBlank]
  generalize raw.toList = text at h
  generalize raw'.toList = text' at h
  induction h with
  | refl => rfl
  | tail _ hstep ih => rw [hstep.blankLines_eq, ih]

/-- A text is taken for blank just if each line, without its comment and trimmed, is empty, a marker
or a directive, and behind each directive comes a marker that begins a document.  The comment of a
line begins at the first octet of a number sign at the beginning of the line or behind white space
of ASCII.  Lines without content, wherever they stand, and comments behind lines make no
difference. -/
theorem isBlank_characterised (raw : String) :
    (isBlank raw = true ↔
      (∀ line ∈ Text.lines raw.toList, bare line = [] ∨ bare line = ['.', '.', '.'] ∨
        bare line = ['-', '-', '-'] ∨ (bare line).head? = some '%') ∧
      ∀ before line after, Text.lines raw.toList = before ++ line :: after →
        (bare line).head? = some '%' → ∃ later ∈ after, bare later = ['-', '-', '-']) ∧
    (∀ line : List Char, ∃ start, Text.octets (.ofList (stripComment true line)) =
        (Text.octets (.ofList line)).take start ∧
      (∀ i < start, ¬CommentAt true (Text.octets (.ofList line)) i) ∧
      (start = (Text.octets (.ofList line)).length ∨
        CommentAt true (Text.octets (.ofList line)) start)) ∧
    ∀ raw' : String, Relation.ReflTransGen Annotates raw.toList raw'.toList →
      isBlank raw' = isBlank raw :=
  ⟨isBlank_iff raw, octets_stripComment, fun _ h => isBlank_of_annotates h⟩

/-- A directive and its marker, with a comment behind the one and a line of a no-break space, a
space and a comment behind the other; and the same lines the other way round. -/
theorem isBlank_characterised_at_directive :
    Relation.ReflTransGen Annotates "%YAML 1.2\n---".toList
        "%YAML 1.2 # \u00e9 #\n---\r\n\u00a0 # none".toList ∧
      isBlank "%YAML 1.2 # \u00e9 #\n---\r\n\u00a0 # none" = true ∧
      isBlank "---\n%YAML 1.2" = false := by
  have hbare : bare "\u00a0 # none".toList = [] := by decide +kernel
  have hcomment : Annotates "%YAML 1.2\n---".toList "%YAML 1.2 # \u00e9 #\n---".toList :=
    @Annotates.comment "%YAML 1.2".toList ['\n'] ['-', '-', '-'] " \u00e9 #".toList
      (.inr (.inl rfl)) (by decide)
  have hline : Annotates "%YAML 1.2 # \u00e9 #\n---".toList
      "%YAML 1.2 # \u00e9 #\n---\r\n\u00a0 # none".toList :=
    .lastLine (.inr rfl) (by decide) hbare
  have hchain := (Relation.ReflTransGen.single hcomment).tail hline
  have hblank : isBlank "%YAML 1.2\n---" = true := by decide +kernel
  refine ⟨hchain, ((isBlank_characterised _).2.2 _ hchain).trans hblank, ?_⟩
  rw [← Bool.not_eq_true, (isBlank_characterised _).1]
  rintro ⟨-, hends⟩
  obtain ⟨later, hlater, -⟩ := hends [['-', '-', '-']] "%YAML 1.2".toList [] (by decide +kernel)
    (by decide +kernel)
  nomatch hlater

end Fragment

end CollectorTemplate
