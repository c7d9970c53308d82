/-
Places behind a text, and the characters that are written as themselves.

* `Mark.across` : the place behind a text;
* `Mark.column_across`, `Mark.line_across`, `Mark.offset_across` : its column, line and offset;
* `Begins` : what text a reader meets where a token may begin;
* `Scalar.isPrintable_break` : the breaks among the printable characters.
-/
import CollectorTemplate.Proofs.Yaml.Silence
import CollectorTemplate.Yaml.Scalar.Written

namespace CollectorTemplate.Yaml

open Scalar

/-! ### Places behind a text -/

namespace Mark

/-- The place behind a text in which no CR comes before an LF. -/
def across (m : Mark) (text : List Char) : Mark :=
  text.foldl (fun m c => if isBreak c then m.newline c else m.next c) m

variable {m : Mark} {c : Char} {text : List Char}

@[simp] theorem across_nil (m : Mark) : m.across [] = m := rfl

theorem across_append (m : Mark) (a b : List Char) : m.across (a ++ b) = (m.across a).across b :=
  List.foldl_append

theorem across_break (h : isBreak c = true) (m : Mark) (text : List Char) :
    m.across (c :: text) = (m.newline c).across text := by
  rw [across, List.foldl_cons, if_pos h]
  rfl

theorem across_other (h : isBreak c = false) (m : Mark) (text : List Char) :
    m.across (c :: text) = (m.next c).across text := by
  rw [across, List.foldl_cons, if_neg (by simp [h])]
  rfl

theorem past_eq_across (h : ∀ c ∈ text, isBreak c = false) (m : Mark) :
    m.past text = m.across text := by
  induction text generalizing m with
  | nil => rfl
  | cons c text ih =>
    rw [across_other (h c List.mem_cons_self)]
    exact ih (fun d hd => h d (List.mem_cons_of_mem c hd)) (m.next c)

theorem column_across (h : ∀ c ∈ text, isBreak c = false) (m : Mark) :
    (m.across text).column = m.column + text.length := by
  rw [← past_eq_across h, column_past]

theorem line_across (h : ∀ c ∈ text, isBreak c = false) (m : Mark) :
    (m.across text).line = m.line := by
  induction text generalizing m with
  | nil => rfl
  | cons c text ih =>
    rw [across_other (h c List.mem_cons_self)]
    exact ih (fun d hd => h d (List.mem_cons_of_mem c hd)) (m.next c)

theorem column_spaces (m : Mark) (k : Nat) : (m.across ('\n' :: spaces k)).column = k := by
  rw [across_break rfl, column_across]
  · simp [Mark.newline, spaces]
  · intro c hc
    rw [List.eq_of_mem_replicate hc]
    rfl

/-- Characters of ASCII are as many bytes. -/
theorem forward_eq_across (h : ∀ c ∈ text, isBreak c = false ∧ c.utf8Size = 1) (m : Mark) :
    m.forward text.length = m.across text := by
  induction text generalizing m with
  | nil => rfl
  | cons c text ih =>
    obtain ⟨⟨hbreak, hsize⟩, htext⟩ := List.forall_mem_cons.mp h
    rw [across_other hbreak, ← ih htext]
    simp only [forward, next, hsize, List.length_cons, Mark.mk.injEq]
    refine ⟨?_, ?_, trivial, ?_⟩ <;> omega

theorem line_le_across (m : Mark) (text : List Char) : m.line ≤ (m.across text).line := by
  induction text generalizing m with
  | nil => exact Nat.le_refl _
  | cons c text ih =>
    cases hc : isBreak c with
    | true =>
      rw [across_break hc]
      exact (Nat.le_succ m.line).trans (ih (m.newline c))
    | false =>
      rw [across_other hc]
      exact ih (m.next c)

end Mark

/-- A token begins here, or the text is over. -/
def Begins (rest : List Char) : Prop :=
  ∀ c ∈ rest.head?, isSpacing c = false ∧ c ≠ '#' ∧ c ≠ '\ufeff'

/-! ### Printable characters -/

namespace Scalar

variable {c : Char} {text : List Char}

/-- The breaks among the printable characters. -/
theorem isPrintable_break (h : isPrintable c = true) (hb : isBreak c = true) :
    c = '\n' ∨ c = '\u2028' ∨ c = '\u2029' := by
  have hcases : c = '\r' ∨ c = '\n' ∨ c = '\u0085' ∨ c = '\u2028' ∨ c = '\u2029' := by
    simpa [isBreak, or_assoc] using hb
  rcases hcases with rfl | rfl | rfl | rfl | rfl
  · exact absurd h (by decide)
  · exact .inl rfl
  · exact absurd h (by decide)
  · exact .inr (.inl rfl)
  · exact .inr (.inr rfl)

theorem breakText_of_isPrintable (h : isPrintable c = true) (hb : isBreak c = true) :
    breakText c = c := by
  rcases isPrintable_break h hb with rfl | rfl | rfl
  · rfl
  · rfl
  · rfl

theorem ne_of_isPrintable {d : Char} (h : isPrintable c = true) (hd : isPrintable d = false) :
    c ≠ d := by
  rintro rfl
  rw [h] at hd
  nomatch hd

theorem isBlank_iff_of_isPrintable (h : isPrintable c = true) : isBlank c = true ↔ c = ' ' := by
  have htab : c ≠ '\t' := ne_of_isPrintable h rfl
  simp [isBlank, htab]

end Scalar

/-! ### Octets -/

namespace Scalar

/-- How many octets a text takes. -/
def octets : List Char → Nat
  | [] => 0
  | c :: text => c.utf8Size + octets text

theorem octets_append (a b : List Char) : octets (a ++ b) = octets a + octets b := by
  induction a with
  | nil => exact (Nat.zero_add _).symm
  | cons c a ih => rw [List.cons_append, octets, octets, ih, Nat.add_assoc]

theorem octets_of_ascii {text : List Char} (h : ∀ c ∈ text, c.utf8Size = 1) :
    octets text = text.length := by
  induction text with
  | nil => rfl
  | cons c text ih =>
    obtain ⟨hc, htext⟩ := List.forall_mem_cons.mp h
    rw [octets, hc, ih htext, List.length_cons, Nat.add_comm]

end Scalar

theorem Mark.offset_across (m : Mark) (text : List Char) :
    (m.across text).offset = m.offset + octets text := by
  induction text generalizing m with
  | nil => rfl
  | cons c text ih =>
    cases hbreak : isBreak c with
    | true => rw [across_break hbreak, ih, octets, ← Nat.add_assoc]; rfl
    | false => rw [across_other hbreak, ih, octets, ← Nat.add_assoc]; rfl

end CollectorTemplate.Yaml
