/-
Where a fragment is refused, and whether its diagnostic says so.

The location of a syntax error counts lines and columns from one.  It is in the text: in one of its
lines, or in the column behind the end of a line.  There is one exception.  At the end of the text
the reader begins a new line, so what is missing there is missed at a line that a text without a
break at its end does not have.

The diagnostic names the location at the end of its own words, unless it is the first of the text.
That one is left out, and then only what is quoted can hold its wording.

* `Location.Inside`, `Location.Behind` : locations in a text and just behind it;
* `Fragment.parse_located` : where a fragment is refused;
* `Fragment.parse_told` : when the diagnostic holds the wording of the location.
-/
import CollectorTemplate.Proofs.Wording
import CollectorTemplate.Proofs.Yaml.Sited

namespace CollectorTemplate

open Text

/-! ### Locations of texts -/

namespace Location

/-- A line of the text, and a column of that line or the one behind its end. -/
def Inside (raw : String) (l : Location) : Prop :=
  0 < l.line ∧ 0 < l.column ∧
    ∃ row, (Yaml.rows raw.toList)[l.line - 1]? = some row ∧ l.column ≤ row.length + 1

/-- The beginning of the line behind the last one, which is not empty. -/
def Behind (raw : String) (l : Location) : Prop :=
  l = ⟨(Yaml.rows raw.toList).length + 1, 1⟩ ∧ (Yaml.rows raw.toList).getLast? ≠ some []

theorem ofMark_near {raw : String} {m : Yaml.Mark} (h : m.Near raw.toList) :
    (ofMark m).Inside raw ∨ (ofMark m).Behind raw := by
  rcases h with ⟨row, hrow, hcolumn⟩ | ⟨hline, hcolumn, hlast⟩
  · exact .inl ⟨Nat.succ_pos _, Nat.succ_pos _, row, hrow, Nat.succ_le_succ hcolumn⟩
  · refine .inr ⟨?_, hlast⟩
    rw [ofMark, hline, hcolumn]

theorem ofMark_eq_start {m : Yaml.Mark} : ofMark m = ⟨1, 1⟩ ↔ m.isStart = true := by
  simp [ofMark, Yaml.Mark.isStart]

end Location

namespace Fragment

variable {raw : String} {e : SyntaxError} {l : Location}

/-- Only reading knows where a fragment is at fault. -/
theorem read_of_location (h : parse raw = .error e) (hl : e.location = some l) :
    ∃ cause m, read raw = .error cause ∧ e = .ofReadError cause ∧ cause.place = some m ∧
      l = .ofMark m := by
  unfold parse at h
  split at h
  · nomatch h
  cases hread : read raw with
  | error cause =>
    rw [hread] at h
    obtain rfl := Except.error.inj h
    obtain ⟨m, hm, rfl⟩ := Option.map_eq_some_iff.mp hl
    exact ⟨cause, m, rfl, rfl, hm, rfl⟩
  | ok data =>
    rw [hread] at h
    cases hconvert : convert data with
    | ok tree => simp [hconvert] at h
    | error cause =>
      simp only [hconvert] at h
      obtain rfl := Except.error.inj h
      exact absurd hl.symm (Option.some_ne_none _)

theorem lies_of_read {cause : Yaml.ReadError} (h : read raw = .error cause) :
    cause.Lies raw.toList :=
  Yaml.Document.lies_of_data (Yaml.Document.lies_ofString raw) .value h

/-- A fragment is refused in its text, or at the beginning of the line behind it if its last line
has no break at its end. -/
theorem parse_located (h : parse raw = .error e) (hl : e.location = some l) :
    l.Inside raw ∨ l.Behind raw := by
  obtain ⟨cause, m, hread, -, hm, rfl⟩ := read_of_location h hl
  exact Location.ofMark_near ((lies_of_read hread).place hm)

/-- A fragment is refused with a failure that passes a test, if running both says so. -/
theorem refused_of_test (raw : String) (test : SyntaxError → Bool)
    (h : (match parse raw with
      | .error e => test e
      | .ok _ => false) = true) : ∃ e, parse raw = .error e ∧ test e = true := by
  cases hparse : parse raw with
  | error e =>
    rw [hparse] at h
    exact ⟨e, rfl, h⟩
  | ok tree =>
    rw [hparse] at h
    exact absurd h Bool.false_ne_true

theorem parse_stray : ∃ e, parse "]" = .error e ∧ e.location = some ⟨1, 1⟩ ∧
    ¬ Holds e.text (Location.text ⟨1, 1⟩) := by
  obtain ⟨e, hparse, h⟩ := refused_of_test "]"
    (fun e => e.location = some ⟨1, 1⟩ ∧ ¬ Holds e.text (Location.text ⟨1, 1⟩))
    (by decide +kernel)
  exact ⟨e, hparse, of_decide_eq_true h⟩

theorem parse_unclosed_location :
    ∃ e, parse "[" = .error e ∧ e.location = some ⟨2, 1⟩ := by
  obtain ⟨e, hparse, h⟩ := refused_of_test "["
    (fun e => e.location = some ⟨2, 1⟩) (by decide +kernel)
  exact ⟨e, hparse, of_decide_eq_true h⟩

/-- A bracket that closes nothing is refused where it stands. -/
theorem parse_located_at_bracket :
    ∃ e, parse "]" = .error e ∧ e.location = some ⟨1, 1⟩ ∧ Location.Inside "]" ⟨1, 1⟩ := by
  obtain ⟨e, hparse, hlocation, -⟩ := parse_stray
  have hline : ¬ Location.Behind "]" ⟨1, 1⟩ := fun h => absurd h.1 (by decide)
  exact ⟨e, hparse, hlocation, (parse_located hparse hlocation).resolve_right hline⟩

/-- A bracket that is never closed is missed in the second line of a text of one line. -/
theorem parse_located_behind :
    ¬ ∀ raw e l, parse raw = .error e → e.location = some l → Location.Inside raw l := by
  intro hclaim
  obtain ⟨e, hparse, hlocation⟩ := parse_unclosed_location
  obtain ⟨-, -, row, hrow, -⟩ := hclaim _ _ _ hparse hlocation
  exact absurd (Option.isSome_of_mem hrow) (by decide)

end Fragment

/-! ### The wording of locations -/

namespace Text

/-- A blank in front of a text is no part of a phrase that begins otherwise. -/
theorem holds_blank {text phrase : String} (h : phrase.toList.head?.any (· ≠ ' ')) :
    Holds (" " ++ text) phrase ↔ Holds text phrase := by
  unfold Holds
  rw [String.toList_append]
  change phrase.toList <:+: ' ' :: text.toList ↔ _
  rw [List.infix_cons_iff, or_iff_right]
  intro hprefix
  cases hchars : phrase.toList with
  | nil => simp [hchars] at h
  | cons c rest =>
    rw [hchars, List.cons_prefix_cons] at hprefix
    simp [hchars, hprefix.1] at h

end Text

/-- The wording of the first location. -/
abbrev Location.first : String := "line 1 column 1"

namespace Yaml

open Location (first)

theorem Mark.text_of_isStart {m : Mark} (h : m.isStart = true) : m.text = first := by
  simp only [isStart, Bool.and_eq_true, beq_iff_eq] at h
  rw [text, h.1, h.2]
  rfl

/-- A message about any other place tells it. -/
theorem Mark.holds_at {m : Mark} (message : String) :
    Holds (message ++ (" at " ++ m.text)) m.text := holds_right (holds_right (List.infix_refl _))

/-- Without its digit the wording is not there. -/
theorem not_holds_first {message : String} (h : '1' ∉ message.toList) : ¬ Holds message first :=
  not_holds_of_notMem (by decide) h

/-- Fixed texts are searched by their characters. -/
theorem notMem_ofList {c : Char} {text : List Char} (h : c ∉ text) :
    c ∉ (String.ofList text).toList := by rwa [String.toList_ofList]

theorem Problem.notMem_text (problem : Problem) : '1' ∉ problem.text.toList := by
  cases problem <;> exact notMem_ofList (by decide)

theorem Context.notMem_text (context : Context) : '1' ∉ context.text.toList := by
  cases context <;> exact notMem_ofList (by decide)

/-- Where a fault is told, its place is. -/
theorem Fault.holds_place {f : Fault} (h : f.place.isStart = false) :
    Holds f.text f.place.text := by
  have hplace : f.placeText = " at " ++ f.place.text := by simp [placeText, h]
  rw [text, hplace]
  exact holds_left (Mark.holds_at _)

/-- What was being read when a fault was met at the beginning of the text began there too, so that
no place is told. -/
theorem Fault.aside_withinText_of_isStart {text : List Char} {f : Fault} (hlies : f.Lies text)
    (hstart : f.place.isStart = true) : Aside f.withinText first := by
  unfold withinText
  split
  · exact aside_empty (by decide)
  · rename_i context start hwithin
    have hbegin := Mark.isStart_of_upto (hlies.within _ hwithin) hstart
    rw [hbegin, Bool.true_or, if_pos rfl, String.append_empty]
    refine ⟨opens_append (by decide) (by decide), not_holds_first ?_⟩
    rw [String.toList_append, List.mem_append]
    exact not_or.mpr ⟨by decide, context.notMem_text⟩

theorem Fault.not_holds_first {text : List Char} {f : Fault} (hlies : f.Lies text)
    (hstart : f.place.isStart = true) : ¬ Holds f.text first := by
  rw [Fault.text, (aside_withinText_of_isStart hlies hstart).holds_append, placeText, if_pos hstart]
  have hproblem := Yaml.not_holds_first f.problem.notMem_text
  split
  · rename_i offset heq
    split
    · rwa [String.append_empty]
    · -- Only the offset may have the digit, and in front of it there is no line.
      have hposition : ¬ Holds (" at position " ++ toString offset) first := by
        refine not_holds_of_notMem (c := 'l') (by decide) fun h => ?_
        rw [String.toList_append, List.mem_append] at h
        rcases h with h | h
        · exact absurd h (by decide)
        · exact absurd (isDigit_of_mem_repr h) (by decide)
      have hcloses : closes f.problem.text first := by
        rw [heq]
        exact (by decide : closes "control characters are not allowed" first = true)
      rw [holds_append (.inl hcloses)]
      exact not_or.mpr ⟨hproblem, hposition⟩
  · rwa [String.append_empty]

namespace ReadError

variable {e : ReadError} {m : Mark}

theorem holds_placed_place (message : String) (h : m.isStart = false) :
    Holds (placed message m) m.text := by
  rw [placed, h, if_neg Bool.false_ne_true, String.append_assoc]
  exact Mark.holds_at message

/-- A failure that is not at the beginning of the text tells its place. -/
theorem holds_place (hm : e.place = some m) (h : m.isStart = false) : Holds e.text m.text := by
  cases e with
  | broken cause =>
    cases cause with
    | fault f =>
      obtain rfl := Option.some.inj hm
      exact f.holds_place h
    | unknownAnchor place =>
      obtain rfl := Option.some.inj hm
      exact holds_placed_place _ h
  | recursionLimit place =>
    obtain rfl := Option.some.inj hm
    exact holds_placed_place _ h
  | complaint cause place path =>
    obtain rfl := Option.some.inj hm
    exact holds_placed_place _ h
  | repetitionLimit | moreDocuments => exact absurd hm.symm (Option.some_ne_none _)

theorem placed_of_isStart (message : String) (h : m.isStart = true) :
    placed message m = message := by rw [placed, if_pos h]

/-- A failure at the beginning of the text holds the wording of its place only in what it quotes. -/
theorem holds_first_iff {text : List Char} (hlies : e.Lies text) (hm : e.place = some m)
    (h : m.isStart = true) :
    Holds e.text first ↔ ∃ cause place path, e = .complaint cause place path ∧
      (Holds path.text first ∨ Holds cause.text first) := by
  cases e with
  | broken cause =>
    refine iff_of_false ?_ (by rintro ⟨_, _, _, heq, -⟩; cases heq)
    cases cause with
    | fault f =>
      obtain rfl := Option.some.inj hm
      exact f.not_holds_first hlies h
    | unknownAnchor place =>
      obtain rfl := Option.some.inj hm
      rw [ReadError.text, placed_of_isStart _ h]
      exact not_holds_first (by decide)
  | recursionLimit place =>
    refine iff_of_false ?_ (by rintro ⟨_, _, _, heq, -⟩; cases heq)
    obtain rfl := Option.some.inj hm
    rw [ReadError.text, placed_of_isStart _ h]
    exact not_holds_first (by decide)
  | complaint cause place path =>
    obtain rfl := Option.some.inj hm
    have hprefixed : Holds (if path.text = "." then cause.text
          else path.text ++ ": " ++ cause.text) first ↔
        Holds path.text first ∨ Holds cause.text first := by
      split
      · rename_i hroot
        rw [hroot, or_iff_right (by decide)]
      · -- The colon is in no wording of a place, and the blank behind it begins none.
        have hsplit : path.text ++ ": " ++ cause.text =
            path.text ++ ":" ++ (" " ++ cause.text) := by
          have hcolon : ": " = ":" ++ " " := rfl
          simp only [hcolon, String.append_assoc]
        rw [hsplit, holds_append (.inl (closes_append (by decide) (by decide))),
          holds_append (.inr (by decide)), holds_blank (by decide),
          or_iff_left (by decide : ¬ Holds ":" first)]
    rw [ReadError.text, placed_of_isStart _ h, hprefixed]
    constructor
    · exact fun hquoted => ⟨cause, place, path, rfl, hquoted⟩
    · rintro ⟨_, _, _, heq, hquoted⟩
      cases heq
      exact hquoted
  | repetitionLimit | moreDocuments => exact absurd hm.symm (Option.some_ne_none _)

end ReadError

end Yaml

/-! ### What the diagnostic tells -/

namespace SyntaxError

theorem holds_text_iff (e : SyntaxError) : Holds e.text Location.first ↔
    Holds e.detail Location.first := by
  have hsplit : e.text = "invalid YAML:" ++ (" " ++ e.detail) := by
    rw [← String.append_assoc]
    rfl
  rw [hsplit, holds_append (.inl (by decide)), holds_blank (by decide),
    or_iff_right (not_holds_ofList (by decide))]

end SyntaxError

namespace Fragment

variable {raw : String} {e : SyntaxError} {l : Location}

/-- The diagnostic of a fragment that is refused tells where, unless that is the beginning of the
text.  Then it holds the wording only if what it quotes of the fragment does. -/
theorem parse_told (h : parse raw = .error e) (hl : e.location = some l) :
    Holds e.text l.text ↔ l ≠ ⟨1, 1⟩ ∨ Quotes raw l.text := by
  obtain ⟨cause, m, hread, rfl, hm, rfl⟩ := read_of_location h hl
  change Holds (SyntaxError.ofReadError cause).text m.text ↔ _ ∨ Quotes raw m.text
  rw [ne_eq, Location.ofMark_eq_start]
  cases hstart : m.isStart with
  | false => exact iff_of_true (holds_right (cause.holds_place hm hstart)) (.inl (by simp))
  | true =>
    rw [Yaml.Mark.text_of_isStart hstart, SyntaxError.holds_text_iff]
    change Holds cause.text _ ↔ _
    rw [Yaml.ReadError.holds_first_iff (lies_of_read hread) hm hstart, Quotes, hread]
    simp

/-- A bracket that is never closed is told where it is missed. -/
theorem parse_told_at_end : ∃ e, parse "[" = .error e ∧ e.location = some ⟨2, 1⟩ ∧
    Holds e.text (Location.text ⟨2, 1⟩) := by
  obtain ⟨e, hparse, hlocation⟩ := parse_unclosed_location
  exact ⟨e, hparse, hlocation, (parse_told hparse hlocation).mpr (.inl (by decide))⟩

/-- The location of a bracket that closes nothing is known and not told. -/
theorem parse_untold :
    ¬ ∀ raw e l, parse raw = .error e → e.location = some l → Holds e.text l.text := by
  intro hclaim
  obtain ⟨e, hparse, hlocation, huntold⟩ := parse_stray
  exact huntold (hclaim _ _ _ hparse hlocation)

end Fragment

end CollectorTemplate
