/-
What a tree stands for, apart from any format.

The texts of both formats denote data.  Numbers count by their value, which need not be one of the
floating-point numbers; infinities, and what is no number, have no value and stand apart.

* `Denoted`, `Tree.denoted` : the data, and those of a tree;
* `Denoted.nulled` : the data with null in the place of what has no value;
* `NumberFormat.value_number` : a format lays out a decimal without changing its value.
-/
import CollectorTemplate.Proofs.Json.Number
import CollectorTemplate.Proofs.Tree
import Mathlib.Algebra.Field.Rat
import Mathlib.Tactic.Ring

namespace CollectorTemplate

/-! ### Values of decimals -/

/-- The value of a decimal. -/
def Decimal.value (d : Decimal) : ℚ := d.digits * 10 ^ d.exponent

/-- The value of a number as it is written. -/
def Decimal.Written.value (w : Decimal.Written) : ℚ :=
  let size : ℚ := w.digits * 10 ^ w.exponent
  if w.negative then -size else size

namespace Decimal

theorem zpow_eq_div {a : ℚ} (ha : a ≠ 0) (n : Int) : a ^ n = a ^ n.toNat / a ^ (-n).toNat := by
  have hsplit : ((n.toNat : Int) - ((-n).toNat : Int)) = n := by omega
  rw [← zpow_natCast, ← zpow_natCast, ← zpow_sub₀ ha, hsplit]

theorem digitsValue_append (digits rest : List Char) :
    digitsValue (digits ++ rest) =
      rest.foldl (fun n d => 10 * n + (d.toNat - '0'.toNat)) (digitsValue digits) :=
  List.foldl_append

/-- Zeros in front do not count. -/
theorem digitsValue_zeros (k : Nat) (digits : List Char) :
    digitsValue (List.replicate k '0' ++ digits) = digitsValue digits := by
  induction k with
  | zero => rfl
  | succ k ih =>
    rw [List.replicate_succ, List.cons_append, ← ih]
    rfl

/-- A zero at the end is a factor of ten. -/
theorem digitsValue_zeros_back (digits : List Char) (k : Nat) :
    digitsValue (digits ++ List.replicate k '0') = digitsValue digits * Nat.pow 10 k := by
  induction k with
  | zero => rw [List.replicate_zero, List.append_nil]; exact (Nat.mul_one _).symm
  | succ k ih =>
    have hstep : digitsValue (digits ++ List.replicate k '0' ++ ['0']) =
        10 * digitsValue (digits ++ List.replicate k '0') := digitsValue_append _ ['0']
    rw [List.replicate_succ', ← List.append_assoc, hstep, ih]
    show _ = digitsValue digits * (Nat.pow 10 k * 10)
    ring

/-- The value of digits that stand for a decimal, perhaps with zeros behind them. -/
theorem Written.value_of_digits (negative : Bool) (digits k : Nat) (exponent : Int) :
    Written.value ⟨negative, digits * Nat.pow 10 k, exponent - k⟩ =
      if negative then -(⟨digits, exponent⟩ : Decimal).value
      else (⟨digits, exponent⟩ : Decimal).value := by
  have hpow : (10 : ℚ) ^ (k : Int) * 10 ^ (exponent - k) = 10 ^ exponent := by
    rw [← zpow_add₀ (by norm_num), add_sub_cancel]
  have hcast : ((Nat.pow 10 k : Nat) : ℚ) = 10 ^ (k : Int) := by
    rw [zpow_natCast]
    exact Nat.cast_pow 10 k
  have hsize : ((digits * Nat.pow 10 k : Nat) : ℚ) * 10 ^ (exponent - k) =
      digits * 10 ^ exponent := by
    rw [Nat.cast_mul, hcast, mul_assoc, hpow]
  simp only [Written.value, Decimal.value, hsize]

end Decimal

/-! ### Values of layouts -/

namespace NumberFormat

open Decimal

/-- The digits of a layout are those of the decimal, perhaps with zeros behind them. -/
theorem written_plainNumber (negative : Bool) (n : Nat) (exponent : Int) {places : Int}
    (hplaces : places = exponent + (Nat.repr n).toList.length) :
    ∃ k : Nat, (plainNumber negative (Nat.repr n).toList places).written =
      ⟨negative, n * Nat.pow 10 k, exponent - k⟩ := by
  have hvalue := digitsValue_repr n
  generalize (Nat.repr n).toList = digits at hvalue hplaces
  unfold plainNumber
  split
  · -- The point stands in front of all digits.
    refine ⟨0, ?_⟩
    have hdigits : digitsValue (['0'] ++ (List.replicate (-places).toNat '0' ++ digits)) = n := by
      rw [← hvalue, ← digitsValue_zeros ((-places).toNat + 1) digits]
      rfl
    have hexponent : (0 : Int) - (List.replicate (-places).toNat '0' ++ digits).length =
        exponent := by
      rw [List.length_append, List.length_replicate]
      omega
    simp only [Json.Number.written, Option.getD_some, Option.getD_none, hdigits, hexponent]
    simp
  simp only []
  split
  · -- It stands behind all digits, with zeros up to it and one behind it.
    rename_i hpositive hlength
    refine ⟨places.toNat - digits.length + 1, ?_⟩
    have hdigits : digitsValue (digits ++ List.replicate (places.toNat - digits.length) '0' ++
        ['0']) = n * Nat.pow 10 (places.toNat - digits.length + 1) := by
      rw [← hvalue, ← digitsValue_zeros_back, List.replicate_succ', List.append_assoc]
    have hexponent : (0 : Int) - (['0'] : List Char).length =
        exponent - ((places.toNat - digits.length + 1 : Nat) : Int) := by
      rw [List.length_singleton]
      omega
    simp only [Json.Number.written, Option.getD_some, Option.getD_none, hdigits, hexponent]
  · -- It stands among the digits.
    rename_i hpositive hlength
    refine ⟨0, ?_⟩
    have hexponent : (0 : Int) - (digits.drop places.toNat).length = exponent := by
      rw [List.length_drop]
      omega
    simp only [Json.Number.written, Option.getD_some, Option.getD_none, List.take_append_drop,
      hvalue, hexponent]
    simp

theorem written_scientificNumber (negative : Bool) (n : Nat) {exponent leading : Int}
    (hleading : leading = exponent + (Nat.repr n).toList.length - 1) :
    (scientificNumber negative (Nat.repr n).toList leading).written = ⟨negative, n, exponent⟩ := by
  have hvalue := digitsValue_repr n
  obtain ⟨c, rest, hrepr, -⟩ := repr_spec n
  rw [hrepr] at hvalue hleading ⊢
  have hexponent : leading - (rest.length : Int) = exponent := by
    rw [hleading, List.length_cons]
    omega
  cases rest with
  | nil =>
    show Written.mk negative (digitsValue [c]) (leading - (([] : List Char).length : Int)) = _
    rw [hvalue, hexponent]
  | cons d rest =>
    show Written.mk negative (digitsValue (c :: d :: rest))
      (leading - ((d :: rest).length : Int)) = _
    rw [hvalue, hexponent]

/-- A format lays out a decimal without changing its value. -/
theorem value_number (format : NumberFormat) (negative : Bool) (d : Decimal) :
    (format.number negative d).written.value = if negative then -d.value else d.value := by
  unfold number
  split
  · rename_i hzero
    have hvalue : d.value = 0 := by
      rw [Decimal.value, hzero, Nat.cast_zero, zero_mul]
    have hsize : (Json.Number.written ⟨negative, ['0'], some ['0'], none⟩).value =
        if negative then -(⟨0, 0⟩ : Decimal).value else (⟨0, 0⟩ : Decimal).value :=
      Written.value_of_digits negative 0 1 0
    have hnull : (⟨0, 0⟩ : Decimal).value = 0 := by
      rw [Decimal.value, Nat.cast_zero, zero_mul]
    rw [hsize, hvalue, hnull]
  simp only []
  split
  · obtain ⟨k, hwritten⟩ :=
      written_plainNumber negative d.digits d.exponent (sub_add_cancel _ 1)
    rw [hwritten]
    exact Written.value_of_digits negative d.digits k d.exponent
  · rw [written_scientificNumber negative d.digits rfl]
    have hvalue := Written.value_of_digits negative d.digits 0 d.exponent
    simpa using hvalue

/-- What a format lays out has a fraction or an exponent. -/
theorem number_isReal (format : NumberFormat) (negative : Bool) (d : Decimal) :
    ((format.number negative d).fraction.isSome || (format.number negative d).exponent.isSome) =
      true := by
  unfold number
  split
  · rfl
  simp only []
  split
  · unfold plainNumber
    split
    · rfl
    simp only []
    split <;> rfl
  · exact Bool.or_true _

end NumberFormat

/-! ### Data -/

/-- What is written of numbers that have no value. -/
inductive NonFinite
  | nan
  | infinity
  | negativeInfinity
  deriving Repr, DecidableEq, Inhabited

/-- The data that a text denotes. -/
inductive Denoted
  | null
  | bool (value : Bool)
  | integer (value : Int)
  /-- A number with a fraction or an exponent. -/
  | real (value : ℚ)
  | nonFinite (value : NonFinite)
  | string (value : String)
  | sequence (items : List Denoted)
  | mapping (entries : List (String × Denoted))

namespace Denoted

mutual

/-- The data with null in the place of what has no value. -/
def nulled : Denoted → Denoted
  | .nonFinite _ => .null
  | .sequence items => .sequence (itemsNulled items)
  | .mapping entries => .mapping (entriesNulled entries)
  | data => data

def itemsNulled : List Denoted → List Denoted
  | [] => []
  | item :: rest => item.nulled :: itemsNulled rest

def entriesNulled : List (String × Denoted) → List (String × Denoted)
  | [] => []
  | (key, value) :: rest => (key, value.nulled) :: entriesNulled rest

end

end Denoted

/-- What a number denotes: an integer unless it has a fraction or an exponent. -/
def Json.Number.denoted (n : Json.Number) : Denoted :=
  if n.fraction.isSome || n.exponent.isSome then .real n.written.value
  else
    let size : Int := Decimal.digitsValue n.whole
    .integer (if n.negative then -size else size)

theorem Json.Number.denoted_ofInteger (n : Int) : (ofInteger n).denoted = .integer n := by
  cases n with
  | ofNat n =>
    show Denoted.integer (Decimal.digitsValue (Nat.repr n).toList) = _
    rw [Decimal.digitsValue_repr]
    rfl
  | negSucc n =>
    show Denoted.integer (-(Decimal.digitsValue (Nat.repr (n + 1)).toList)) = _
    rw [Decimal.digitsValue_repr]
    rfl

/-! ### Trees -/

/-- A finite floating-point number counts by its shortest decimal. -/
def floatDenoted (x : Float) : Denoted :=
  if x.isNaN then .nonFinite .nan
  else
    let negative := NumberFormat.isNegative x
    if x.isInf then .nonFinite (if negative then .negativeInfinity else .infinity)
    else
      let size := (Decimal.shortest (.ofFloat x)).value
      .real (if negative then -size else size)

theorem floatDenoted_finite (format : NumberFormat) {x : Float} (hnan : x.isNaN = false)
    (hinf : x.isInf = false) :
    floatDenoted x = .real (format.floatNumber x).written.value := by
  rw [floatDenoted, hnan, if_neg Bool.false_ne_true, hinf, NumberFormat.floatNumber,
    NumberFormat.value_number]
  rfl

namespace Tree

mutual

/-- What a tree stands for. -/
def denoted : Tree → Denoted
  | .null => .null
  | .bool b => .bool b
  | .integer n => .integer n
  | .float x => floatDenoted x
  | .string s => .string s
  | .sequence items => .sequence (itemsDenoted items)
  | .mapping entries => .mapping (entriesDenoted entries)

def itemsDenoted : List Tree → List Denoted
  | [] => []
  | item :: rest => item.denoted :: itemsDenoted rest

def entriesDenoted : List (String × Tree) → List (String × Denoted)
  | [] => []
  | (key, value) :: rest => (key, value.denoted) :: entriesDenoted rest

end

mutual

/-- Whether all floating-point numbers of a tree are finite. -/
def allFinite : Tree → Bool
  | .float x => !(x.isNaN || x.isInf)
  | .sequence items => itemsAllFinite items
  | .mapping entries => entriesAllFinite entries
  | _ => true

def itemsAllFinite : List Tree → Bool
  | [] => true
  | item :: rest => item.allFinite && itemsAllFinite rest

def entriesAllFinite : List (String × Tree) → Bool
  | [] => true
  | (_, value) :: rest => value.allFinite && entriesAllFinite rest

end

theorem floatDenoted_cases (x : Float) :
    (!(x.isNaN || x.isInf)) = true ∧ (∃ value, floatDenoted x = .real value) ∨
      (!(x.isNaN || x.isInf)) = false ∧ ∃ value, floatDenoted x = .nonFinite value := by
  unfold floatDenoted
  cases x.isNaN with
  | true => exact .inr ⟨rfl, _, rfl⟩
  | false =>
    cases x.isInf with
    | true => exact .inr ⟨rfl, _, rfl⟩
    | false => exact .inl ⟨rfl, _, rfl⟩

theorem itemsNulled_eq_iff {items : List Tree}
    (h : ∀ item ∈ items, item.denoted.nulled = item.denoted ↔ item.allFinite = true) :
    Denoted.itemsNulled (itemsDenoted items) = itemsDenoted items ↔
      itemsAllFinite items = true := by
  induction items with
  | nil => exact iff_of_true rfl rfl
  | cons item items ih =>
    obtain ⟨hitem, hitems⟩ := List.forall_mem_cons.mp h
    rw [itemsDenoted, Denoted.itemsNulled, itemsAllFinite, Bool.and_eq_true, ← hitem, ← ih hitems]
    exact List.cons_eq_cons

theorem entriesNulled_eq_iff {entries : List (String × Tree)}
    (h : ∀ entry ∈ entries, entry.2.denoted.nulled = entry.2.denoted ↔ entry.2.allFinite = true) :
    Denoted.entriesNulled (entriesDenoted entries) = entriesDenoted entries ↔
      entriesAllFinite entries = true := by
  induction entries with
  | nil => exact iff_of_true rfl rfl
  | cons entry entries ih =>
    obtain ⟨key, value⟩ := entry
    obtain ⟨hvalue, hentries⟩ := List.forall_mem_cons.mp h
    rw [entriesDenoted, Denoted.entriesNulled, entriesAllFinite, Bool.and_eq_true, ← hvalue,
      ← ih hentries, List.cons_eq_cons, Prod.mk.injEq]
    exact and_congr_left' ⟨And.right, fun h => ⟨rfl, h⟩⟩

/-- Nothing becomes null just if all floating-point numbers are finite. -/
theorem nulled_denoted_eq_iff (tree : Tree) :
    tree.denoted.nulled = tree.denoted ↔ tree.allFinite = true := by
  induction tree using Tree.induction with
  | null | bool | integer | string => exact iff_of_true rfl rfl
  | float x =>
    rw [denoted, allFinite]
    obtain ⟨hfinite, value, hvalue⟩ | ⟨hfinite, value, hvalue⟩ := floatDenoted_cases x
    · rw [hfinite, hvalue]
      exact iff_of_true rfl rfl
    · rw [hfinite, hvalue]
      exact iff_of_false (fun h => Denoted.noConfusion h) Bool.false_ne_true
  | sequence items ih =>
    rw [denoted, Denoted.nulled, allFinite, ← itemsNulled_eq_iff ih]
    exact ⟨Denoted.sequence.inj, congrArg Denoted.sequence⟩
  | mapping entries ih =>
    rw [denoted, Denoted.nulled, allFinite, ← entriesNulled_eq_iff ih]
    exact ⟨Denoted.mapping.inj, congrArg Denoted.mapping⟩

end Tree

end CollectorTemplate
