/-
Decimals within the finite range.

A decimal below the middle between the largest finite number and the next power of two is read as a
finite floating-point number.

* `limit` : that middle;
* `isFinite_ofScientific` : a decimal below it is finite;
* `Decimal.Written.isFinite_toFloat` : so is a number as it is written.
-/
import CollectorTemplate.Proofs.Decimal.Rounding
import CollectorTemplate.Proofs.Denoted
import Mathlib.Tactic.Linarith

namespace CollectorTemplate.Rounding

open Float.Model Float.Model.UnpackedFloat

/-- The middle between the largest finite number and the next power of two. -/
def limit : Nat := (2 ^ 54 - 1) * 2 ^ 970

/-- Powers of two are multiplied by their exponents, which stay as they are written. -/
theorem two_pow_mul {a b c : Nat} (h : a + b = c) : 2 ^ a * 2 ^ b = 2 ^ c := by
  rw [← pow_add, h]

theorem ten_pow_le {a b : Nat} (h : a ≤ b) : 10 ^ a ≤ 10 ^ b := Nat.pow_le_pow_right (by decide) h

theorem two_pow_le {a b : Nat} (h : a ≤ 3 * b) : 2 ^ a ≤ 10 ^ b :=
  calc 2 ^ a ≤ 2 ^ (3 * b) := Nat.pow_le_pow_right Nat.two_pos h
    _ = 8 ^ b := pow_mul 2 3 b
    _ ≤ 10 ^ b := Nat.pow_le_pow_left (by decide) b

theorem limit_mul : limit * 2 ^ 54 = (2 ^ 54 - 1) * 2 ^ 1024 := by
  rw [limit, Nat.mul_assoc, two_pow_mul (show 970 + 54 = 1024 from rfl)]

theorem two_mul_limit : 2 * limit = (2 ^ 54 - 1) * 2 ^ 971 := by
  rw [limit, Nat.mul_left_comm, ← two_pow_mul (show 1 + 970 = 971 from rfl), pow_one]

theorem limit_lt : limit < 10 ^ 400 :=
  calc limit < 2 ^ 54 * 2 ^ 970 := Nat.mul_lt_mul_of_pos_right (by decide) (pow_pos Nat.two_pos 970)
    _ = 2 ^ 1024 := two_pow_mul rfl
    _ ≤ 10 ^ 400 := two_pow_le (by decide)

/-! ### Products and quotients -/

variable {top e₁ e₂ : Int} {m₁ m₂ : Nat}

theorem mul_within (s₁ s₂ : Sign) {h₁ : 0 < m₁} {h₂ : 0 < m₂} (htop : -1074 ≤ top) (k : Nat)
    (hk : (k : Int) = top - (e₁ + e₂)) (h : 2 * (m₁ * m₂) < (2 ^ 54 - 1) * 2 ^ k) :
    Within top (mul Format.binary64 (.finite s₁ m₁ e₁ h₁) (.finite s₂ m₂ e₂ h₂)) := by
  have hnat : (top - (e₁ + e₂)).toNat = k := by omega
  exact roundWithAccuracy_within (s₁ * s₂) htop (by omega) (hnat ▸ h)

/-- The halves of a quotient. -/
theorem startHalves_quotient (a b : Nat) (hb : 0 < b) :
    startHalves (a / b) (accuracyOfFraction (a % b) b) = 2 * a / b := by
  have hsplit : 2 * a = b * (2 * (a / b)) + 2 * (a % b) := by
    have := Nat.div_add_mod a b
    calc 2 * a = 2 * (b * (a / b) + a % b) := by rw [this]
      _ = b * (2 * (a / b)) + 2 * (a % b) := by ring
  have hquotient : 2 * a / b = 2 * (a / b) + 2 * (a % b) / b := by
    rw [hsplit, Nat.mul_add_div hb]
  have hmod : a % b < b := Nat.mod_lt a hb
  rw [hquotient]
  generalize a / b = whole
  generalize a % b = rest at hmod
  -- The accuracy tells the half that the remainder makes up.
  unfold accuracyOfFraction
  split
  · rename_i hzero
    rw [hzero]
    show 2 * whole + 0 = 2 * whole + 2 * 0 / b
    rw [Nat.mul_zero, Nat.zero_div]
  · cases horder : compare (2 * rest) b with
    | lt =>
      have hlt : 2 * rest < b := Nat.compare_eq_lt.mp horder
      rw [Nat.div_eq_of_lt hlt]
      rfl
    | eq =>
      have heq : 2 * rest = b := Nat.compare_eq_eq.mp horder
      rw [heq, Nat.div_self hb]
      rfl
    | gt =>
      have hgt : b < 2 * rest := Nat.compare_eq_gt.mp horder
      have hone : 2 * rest / b = 1 := Nat.div_eq_of_lt_le (by omega) (by omega)
      rw [hone]
      rfl

theorem div_within (s₁ s₂ : Sign) {h₁ : 0 < m₁} {h₂ : 0 < m₂} (htop : -1074 ≤ top) (k : Nat)
    (hk : (k : Int) = top - (e₁ - e₂)) (h : 2 * m₁ < (2 ^ 54 - 1) * 2 ^ k * m₂) :
    Within top (div Format.binary64 (.finite s₁ m₁ e₁ h₁) (.finite s₂ m₂ e₂ h₂)) := by
  unfold UnpackedFloat.div divCore
  dsimp only
  generalize htarget : min (e₁ - e₂) (Format.binary64.targetExponent
    (totalExponent m₁ e₁ - totalExponent m₂ e₂)) = target
  have hle : target ≤ e₁ - e₂ := htarget ▸ Int.min_le_left _ _
  -- The dividend is shifted by `n` bits first, and these come back out of the exponent.
  obtain ⟨n, hn⟩ : ∃ n : Nat, (n : Int) = e₁ - e₂ - target := ⟨(e₁ - e₂ - target).toNat, by omega⟩
  have hsum : (top - target).toNat = k + n := by omega
  rw [← hn, Int.toNat_natCast]
  refine roundWithAccuracy_within _ htop (by omega) ?_
  rw [startHalves_quotient _ _ h₂, hsum, Nat.div_lt_iff_lt_mul h₂, Nat.shiftLeft_eq, pow_add]
  calc 2 * (m₁ * 2 ^ n) = 2 * m₁ * 2 ^ n := by ring
    _ < (2 ^ 54 - 1) * 2 ^ k * m₂ * 2 ^ n := Nat.mul_lt_mul_of_pos_right h (Nat.two_pow_pos n)
    _ = (2 ^ 54 - 1) * (2 ^ k * 2 ^ n) * m₂ := by ring

/-! ### Numbers of the format -/

/-- A natural number of 53 bits needs no exponent. -/
theorem ofNat_within {n : Nat} (h : n < 2 ^ 53) :
    Within 0 (UnpackedFloat.ofInt Format.binary64 n) := by
  unfold UnpackedFloat.ofInt UnpackedFloat.normalize
  cases horder : compare (n : Int) 0 with
  | lt => exact absurd (Int.compare_eq_lt.mp horder) (by omega)
  | eq => trivial
  | gt =>
    have hlog : n.log2 ≤ 52 := log2_lt_of_lt h
    simp only [Int.toNat_natCast]
    unfold UnpackedFloat.round decreaseExponent
    simp only [targetExponent_eq, totalExponent]
    generalize hshift : (0 - max ((n.log2 : Int) + 1 + 0 - 53) (-1074)).toNat = k
    refine roundWithAccuracy_within _ (by decide) (by omega) ?_
    show 2 * (n <<< k) + 0 < _
    have hsum : (0 - (0 - (k : Int))).toNat = k := by omega
    rw [hsum, Nat.shiftLeft_eq, ← Nat.mul_assoc, Nat.add_zero]
    exact Nat.mul_lt_mul_of_pos_right (by omega) (Nat.two_pow_pos k)

/-- The powers of ten that are numbers of the format. -/
def isPower : UnpackedFloat → Bool
  | .finite _ _ exponent _ => -52 ≤ exponent && exponent ≤ 21
  | _ => false

theorem isPower_table : ∀ e : Fin 23,
    isPower Float.exactlyRepresentablePowersOfTen[e].toModel.unpack = true := by
  decide +kernel

/-- A number of 53 bits. -/
def IsShort (f : UnpackedFloat) : Prop :=
  ∀ sign mantissa exponent hpos, f = .finite sign mantissa exponent hpos → mantissa < 2 ^ 53

theorem small_within {f g : UnpackedFloat} (hf : Within 0 f) (hshort : IsShort f)
    (hg : isPower g = true) (hgshort : IsShort g) :
    Within 971 (mul Format.binary64 f g) ∧ Within 971 (div Format.binary64 f g) := by
  cases g with
  | notANumber => exact absurd hg Bool.false_ne_true
  | infinity sign => exact absurd hg Bool.false_ne_true
  | zero sign => exact absurd hg Bool.false_ne_true
  | finite s₂ m₂ e₂ h₂ =>
    obtain ⟨hlow, hhigh⟩ := Bool.and_eq_true_iff.mp hg
    have hlow : -52 ≤ e₂ := of_decide_eq_true hlow
    have hhigh : e₂ ≤ 21 := of_decide_eq_true hhigh
    cases f with
    | notANumber => exact hf.elim
    | infinity sign => exact hf.elim
    | zero sign => exact ⟨trivial, trivial⟩
    | finite s₁ m₁ e₁ h₁ =>
      have hf : e₁ ≤ 0 := hf
      have hm₁ := hshort s₁ m₁ e₁ h₁ rfl
      have hm₂ := hgshort s₂ m₂ e₂ h₂ rfl
      refine ⟨mul_within s₁ s₂ (by decide) (971 - (e₁ + e₂)).toNat (by omega) ?_,
        div_within s₁ s₂ (by decide) (971 - (e₁ - e₂)).toNat (by omega) ?_⟩
      · have hproduct : m₁ * m₂ < 2 ^ 53 * 2 ^ 53 := Nat.mul_lt_mul'' hm₁ hm₂
        have hpow : 2 ^ 54 ≤ 2 ^ (971 - (e₁ + e₂)).toNat :=
          Nat.pow_le_pow_right Nat.two_pos (by omega)
        calc 2 * (m₁ * m₂) < (2 ^ 54 - 1) * 2 ^ 54 := by omega
          _ ≤ _ := Nat.mul_le_mul_left _ hpow
      · have hpow : 1 ≤ 2 ^ (971 - (e₁ - e₂)).toNat * m₂ :=
          Nat.mul_pos (Nat.two_pow_pos _) h₂
        calc 2 * m₁ < (2 ^ 54 - 1) * 1 := by omega
          _ ≤ (2 ^ 54 - 1) * (2 ^ (971 - (e₁ - e₂)).toNat * m₂) := Nat.mul_le_mul_left _ hpow
          _ = _ := (Nat.mul_assoc _ _ _).symm

/-- A small number times a power of ten of the format, or divided by it. -/
theorem isFinite_small {n e : Nat} (hn : n < 2 ^ 53) (he : e < 23) :
    (n.toUInt64.toFloat * Float.exactlyRepresentablePowersOfTen[e]).isFinite = true ∧
      (n.toUInt64.toFloat / Float.exactlyRepresentablePowersOfTen[e]).isFinite = true := by
  have hwithin : Within 0 n.toUInt64.toFloat.toModel.unpack := by
    have hvalue : n.toUInt64.toNat = n := Nat.mod_eq_of_lt (Nat.lt_trans hn (by decide))
    refine unpack_pack_within (by decide) (by decide) ?_
    show Within 0 (UnpackedFloat.ofInt Format.binary64 (n.toUInt64.toNat : Int))
    rw [hvalue]
    exact ofNat_within hn
  have hshort (x : Float) : IsShort x.toModel.unpack := fun _ _ _ _ heq => (finite_of_unpack heq).1
  obtain ⟨hmul, hdiv⟩ :=
    small_within hwithin (hshort _) (isPower_table ⟨e, he⟩) (hshort _)
  exact ⟨isFinite_pack hmul, isFinite_pack hdiv⟩

/-! ### Decimals -/

theorem ofScientific_within {m : Nat} {e : Int}
    (h : m * 10 ^ e.toNat < limit * 10 ^ (-e).toNat) :
    Within 971 (UnpackedFloat.ofScientific Format.binary64 m e) := by
  unfold UnpackedFloat.ofScientific
  by_cases hm : m = 0
  · rw [dif_pos hm]
    trivial
  rw [dif_neg hm]
  have hpos : 1 ≤ m := Nat.one_le_iff_ne_zero.mpr hm
  by_cases hlarge : e > 2 ^ Format.binary64.exponentBits
  · -- A number that is not zero would be beyond the limit by its exponent alone.
    have hlarge : e > 2048 := hlarge
    have hzero : (-e).toNat = 0 := by omega
    have hpow : 10 ^ 400 ≤ 10 ^ e.toNat := ten_pow_le (by omega)
    simp only [hzero, pow_zero, mul_one] at h
    exact absurd (Nat.lt_of_le_of_lt (Nat.mul_le_mul hpos hpow) (Nat.lt_trans h limit_lt))
      (by rw [Nat.one_mul]; exact Nat.lt_irrefl _)
  rw [if_neg hlarge]
  by_cases htiny : e < -(2 ^ Format.binary64.exponentBits + (m.log2 : Int))
  · rw [if_pos htiny]
    trivial
  rw [if_neg htiny]
  by_cases hnonneg : 0 ≤ e
  · rw [if_pos hnonneg]
    have hzero : (-e).toNat = 0 := by omega
    simp only [hzero, pow_zero, mul_one] at h
    have hshift : m <<< Format.binary64.mantissaBits = m * 2 ^ 53 := Nat.shiftLeft_eq m 53
    refine mul_within _ _ (by decide) 1024 (by decide) ?_
    rw [hshift, ← limit_mul]
    have hproduct : 2 * (m * 2 ^ 53 * 10 ^ e.toNat) = m * 10 ^ e.toNat * 2 ^ 54 := by ring
    exact hproduct.trans_lt (Nat.mul_lt_mul_of_pos_right h (Nat.two_pow_pos 54))
  · rw [if_neg hnonneg]
    have hzero : e.toNat = 0 := by omega
    simp only [hzero, pow_zero, mul_one] at h
    refine div_within _ _ (by decide) 971 (by decide) ?_
    rw [← two_mul_limit, Nat.mul_assoc]
    exact Nat.mul_lt_mul_of_pos_left h Nat.two_pos

/-- A decimal below the limit is read as a finite number. -/
theorem isFinite_ofScientific {m : Nat} {e : Int}
    (h : m * 10 ^ e.toNat < limit * 10 ^ (-e).toNat) :
    (Float.ofScientific m (e < 0) e.natAbs).isFinite = true := by
  unfold Float.ofScientific
  split
  · rename_i hsmall
    obtain ⟨hm, he⟩ := hsmall
    -- A small number is read by one product or quotient of numbers of the format.
    obtain ⟨hmul, hdiv⟩ := isFinite_small hm (Nat.lt_succ_of_le he)
    simp only []
    split
    · exact hdiv
    · exact hmul
  · have hexponent : (if decide (e < 0) = true then Int.negOfNat e.natAbs
        else Int.ofNat e.natAbs) = e := by
      by_cases hneg : e < 0
      · rw [if_pos (decide_eq_true hneg), Int.negOfNat_eq, Int.ofNat_eq_natCast]
        omega
      · rw [if_neg (by simpa using hneg), Int.ofNat_eq_natCast]
        omega
    simp only [hexponent]
    exact isFinite_pack (ofScientific_within h)

/-- The sign does not count. -/
theorem isFinite_neg {x : Float} (h : x.isFinite = true) : (-x).isFinite = true := by
  have hwithin := unpack_within h
  show (Float.Model.pack x.toModel.unpack.neg).isFinite = true
  refine isFinite_pack ?_
  cases hunpack : x.toModel.unpack with
  | zero sign => trivial
  | _ => rw [hunpack] at hwithin; exact hwithin

end CollectorTemplate.Rounding

namespace CollectorTemplate.Decimal

open Rounding

/-- A number of more than `k` digits. -/
theorem pow_le_of_lt_length {n k : Nat} (hn : n ≠ 0) (h : k < (Nat.repr n).length) :
    10 ^ k ≤ n := by
  cases k with
  | zero => exact Nat.one_le_iff_ne_zero.mpr hn
  | succ k =>
    have hlength : ¬(Nat.toDigits 10 n).length ≤ k + 1 := by
      rw [← Nat.toList_repr, String.length_toList]
      exact Nat.not_le_of_lt h
    rw [Nat.length_toDigits_le_iff (by decide) (Nat.succ_pos k)] at hlength
    exact Nat.le_of_not_lt hlength

namespace Written

/-- The digits of a number below the limit end far below the place from which on it is infinite. -/
theorem length_le {w : Written} (hdigits : w.digits ≠ 0)
    (h : w.digits * 10 ^ w.exponent.toNat < limit * 10 ^ (-w.exponent).toNat) :
    w.exponent + (Nat.repr w.digits).length ≤ 400 := by
  -- Otherwise the first digit alone would stand beyond the limit.
  have hlength : 0 < (Nat.repr w.digits).length := by
    rw [← String.length_toList, Nat.toList_repr]
    exact Nat.length_toDigits_pos
  refine Int.not_lt.mp fun hlarge => ?_
  generalize hk : (Nat.repr w.digits).length - 1 = k
  have hpow : 10 ^ k ≤ w.digits := pow_le_of_lt_length hdigits (by omega)
  have hexponent : 400 + (-w.exponent).toNat ≤ k + w.exponent.toNat := by omega
  have hle : limit * 10 ^ (-w.exponent).toNat ≤ w.digits * 10 ^ w.exponent.toNat :=
    calc limit * 10 ^ (-w.exponent).toNat
      _ ≤ 10 ^ 400 * 10 ^ (-w.exponent).toNat := Nat.mul_le_mul_right _ (Nat.le_of_lt limit_lt)
      _ = 10 ^ (400 + (-w.exponent).toNat) := (pow_add _ _ _).symm
      _ ≤ 10 ^ (k + w.exponent.toNat) := ten_pow_le hexponent
      _ = 10 ^ k * 10 ^ w.exponent.toNat := pow_add _ _ _
      _ ≤ w.digits * 10 ^ w.exponent.toNat := Nat.mul_le_mul_right _ hpow
  exact Nat.not_lt_of_le hle h

theorem abs_value (w : Written) : |w.value| = w.digits * 10 ^ w.exponent := by
  have hnonneg : (0 : ℚ) ≤ w.digits * 10 ^ w.exponent :=
    mul_nonneg (Nat.cast_nonneg _) (le_of_lt (zpow_pos (by norm_num) _))
  unfold value
  simp only []
  split
  · rw [abs_neg, abs_of_nonneg hnonneg]
  · exact abs_of_nonneg hnonneg

theorem lt_limit_of_value {w : Written} (h : |w.value| < limit) :
    w.digits * 10 ^ w.exponent.toNat < limit * 10 ^ (-w.exponent).toNat := by
  have hpos : (0 : ℚ) < 10 ^ (-w.exponent).toNat := pow_pos (by norm_num) _
  rw [abs_value, zpow_eq_div (by norm_num), mul_div_assoc', div_lt_iff₀ hpos] at h
  exact_mod_cast h

/-- A number below the limit is read as a finite floating-point number. -/
theorem isFinite_toFloat {w : Written} (h : |w.value| < limit) : w.toFloat.isFinite = true := by
  have h := lt_limit_of_value h
  have hzero : (0 : Float).isFinite = true := by decide +kernel
  have hsize : (if w.digits = 0 then (0 : Float)
      else if 400 < w.exponent + (Nat.repr w.digits).length then Float.ofScientific 1 false 400
      else if w.exponent + (Nat.repr w.digits).length < -400 then 0
      else Float.ofScientific w.digits (w.exponent < 0) w.exponent.natAbs).isFinite = true := by
    split
    · exact hzero
    rename_i hdigits
    rw [if_neg (Int.not_lt.mpr (length_le hdigits h))]
    split
    · exact hzero
    · exact isFinite_ofScientific h
  unfold toFloat
  simp only []
  split
  · exact isFinite_neg hsize
  · exact hsize

end Written

end CollectorTemplate.Decimal
