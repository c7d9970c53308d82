/-
Digits of numbers.

* `repr_spec`, `head_repr_ne_zero` : what the digits of a number are, and what they begin with;
* `digitsValue_repr`, `radixValue?_repr` : they are read as the number;
* `radixValue?_eq_none` : where another character is among them, nothing is read.
-/
import CollectorTemplate.Decimal.Reading
import CollectorTemplate.Text.Digits
import Mathlib.Data.List.Basic

namespace CollectorTemplate

/-- The digits of a number. -/
theorem repr_spec (n : Nat) :
    ∃ c rest, (Nat.repr n).toList = c :: rest ∧ ∀ x ∈ c :: rest, x.isDigit = true := by
  obtain ⟨c, rest, h⟩ := List.exists_cons_of_ne_nil (Nat.toDigits_ne_nil (b := 10) (n := n))
  refine ⟨c, rest, Nat.toList_repr.trans h, fun x hx => ?_⟩
  rw [← h] at hx
  exact Nat.isDigit_of_mem_toDigits (by decide) (by decide) hx

theorem isDigit_of_mem_repr {n : Nat} {c : Char} (h : c ∈ (Nat.repr n).toList) :
    c.isDigit = true := by
  obtain ⟨d, rest, hrepr, hdigits⟩ := repr_spec n
  exact hdigits c (hrepr ▸ h)

/-- Only zero begins with a zero. -/
theorem head_repr_ne_zero {n : Nat} (h : 0 < n) : (Nat.repr n).toList.head? ≠ some '0' := by
  rw [Nat.toList_repr]
  induction n using Nat.strongRecOn with
  | _ n ih =>
    rw [Nat.toDigits_eq_if (by decide)]
    split
    · rename_i hsmall
      have hdigit : ∀ m < 10, 0 < m → m.digitChar ≠ '0' := by decide
      simpa using hdigit n hsmall h
    · rename_i hlarge
      rw [List.head?_append_of_ne_nil _ Nat.toDigits_ne_nil]
      exact ih (n / 10) (by omega) (by omega)

namespace Decimal

theorem digitsValue_eq (digits : List Char) : digitsValue digits = Nat.ofDigitChars 10 digits 0 :=
  Nat.ofDigitChars_eq_foldl.symm

theorem digitsValue_repr (n : Nat) : digitsValue (Nat.repr n).toList = n := by
  rw [digitsValue_eq, Nat.toList_repr, Nat.ofDigitChars_ten_toDigits]

end Decimal

namespace Text

open Decimal

theorem hexDigit?_of_isDigit {c : Char} (h : c.isDigit = true) :
    hexDigit? c = some (c.toNat - '0'.toNat) ∧ c.toNat - '0'.toNat < 10 := by
  refine ⟨if_pos h, ?_⟩
  simp only [Char.isDigit, Bool.and_eq_true, decide_eq_true_eq, UInt32.le_iff_toNat_le] at h
  change c.val.toNat - 48 < 10
  have := h.2
  change c.val.toNat ≤ 57 at this
  omega

/-- Decimal digits are read as their value. -/
theorem radixValue?_digits {digits : List Char} (hne : digits ≠ [])
    (h : ∀ c ∈ digits, c.isDigit = true) : radixValue? 10 digits = some (digitsValue digits) := by
  have hfold (n : Nat) : digits.foldl
      (fun n d => do
        let n ← n
        let v ← hexDigit? d
        if v < 10 then some (10 * n + v) else none) (some n) =
      some (digits.foldl (fun n d => 10 * n + (d.toNat - '0'.toNat)) n) := by
    clear hne
    induction digits generalizing n with
    | nil => rfl
    | cons c digits ih =>
      obtain ⟨hc, hdigits⟩ := List.forall_mem_cons.mp h
      obtain ⟨hvalue, hlt⟩ := hexDigit?_of_isDigit hc
      have hdigit : (if c.toNat - '0'.toNat < 10 then some (10 * n + (c.toNat - '0'.toNat)) else
        none) =
          some (10 * n + (c.toNat - '0'.toNat)) := if_pos hlt
      rw [List.foldl_cons, List.foldl_cons, ← ih hdigits, hvalue]
      exact congrArg (List.foldl _ · digits) hdigit
  rw [radixValue?, if_neg (by simp [hne])]
  exact hfold 0

theorem radixValue?_repr (n : Nat) : radixValue? 10 (Nat.repr n).toList = some n := by
  obtain ⟨c, rest, hrepr, hdigits⟩ := repr_spec n
  rw [radixValue?_digits (by simp [hrepr]) (hrepr ▸ hdigits), digitsValue_repr]

/-- A text with a character that is no digit of the radix is no number. -/
theorem radixValue?_eq_none {radix : Nat} {digits : List Char} {c : Char} (hmem : c ∈ digits)
    (hc : ∀ v ∈ hexDigit? c, radix ≤ v) : radixValue? radix digits = none := by
  have hnone (rest : List Char) : rest.foldl
      (fun n d => do
        let n ← n
        let v ← hexDigit? d
        if v < radix then some (radix * n + v) else none) (none : Option Nat) = none := by
    induction rest with
    | nil => rfl
    | cons d rest ih => exact ih
  -- Once the fold has met the character, it stays at nothing.
  obtain ⟨front, back, rfl⟩ := List.append_of_mem hmem
  rw [radixValue?, if_neg (by simp), List.foldl_append, List.foldl_cons]
  convert hnone back
  cases List.foldl _ (some 0) front with
  | none => rfl
  | some n =>
    cases hvalue : hexDigit? c with
    | none => rfl
    | some v => exact if_neg (Nat.not_lt.mpr (hc v hvalue))

/-- Digits alone mark no radix. -/
theorem radixMark?_digits {digits : List Char} (h : ∀ c ∈ digits, c.isDigit = true) :
    radixMark? digits = none := by
  unfold radixMark?
  split
  · nomatch h 'x' (by simp)
  · nomatch h 'o' (by simp)
  · nomatch h 'b' (by simp)
  · rfl

end Text

end CollectorTemplate
