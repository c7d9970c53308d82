/-
Decimals beyond the finite range.

From the middle between the largest finite number and the next power of two on, an integer is read
as an infinity.  The middle itself is rounded up, as the mantissa of the largest number is odd.

* `Beyond` : infinite, or with a larger exponent than finite numbers have;
* `roundWithAccuracy_beyond` : what is rounded there gets such an exponent;
* `unpack_pack_beyond` : it is packed as an infinity;
* `Decimal.Written.isFinite_toFloat_iff` : just below the limit an integer is finite;
* `Decimal.Written.toFloat_eq_ofInt` : and it is the number nearest to the integer then.
-/
import CollectorTemplate.Proofs.Decimal.Finite

namespace CollectorTemplate.Rounding

open Float.Model Float.Model.UnpackedFloat

/-! ### Rounding -/

/-- Infinite, or with a larger exponent than finite numbers have. -/
def Beyond : UnpackedFloat → Prop
  | .infinity _ => True
  | .finite _ _ exponent _ => 971 < exponent
  | _ => False

/-- A mantissa of 53 bits or more keeps just as many, and the exponent grows by the others. -/
theorem shift_of_log2 {mantissa : Nat} (exponent : Int) (accuracy : Accuracy)
    (hlog : 52 ≤ mantissa.log2) (hexponent : -1074 ≤ exponent) :
    (shiftToTargetExponent Format.binary64 mantissa exponent accuracy).2 =
        exponent + (mantissa.log2 - 52) ∧
      halves (shiftToTargetExponent Format.binary64 mantissa exponent accuracy).1 =
        startHalves mantissa accuracy / 2 ^ (mantissa.log2 - 52) ∧
      2 ^ 53 ≤ halves (shiftToTargetExponent Format.binary64 mantissa exponent accuracy).1 := by
  obtain ⟨n, hn, hsecond, hhalves⟩ := shiftToTargetExponent_spec mantissa exponent accuracy
  obtain rfl : n = mantissa.log2 - 52 := by omega
  refine ⟨hsecond.trans (by omega), hhalves, ?_⟩
  rw [hhalves, Nat.le_div_iff_mul_le (Nat.two_pow_pos _), ← pow_add]
  have hself : 2 ^ mantissa.log2 ≤ mantissa := Nat.log2_self_le (by rintro rfl; nomatch hlog)
  have hpow : 2 ^ (53 + (mantissa.log2 - 52)) = 2 * 2 ^ mantissa.log2 := by
    rw [← pow_succ']
    congr 1
    omega
  have hstart := (startHalves_le mantissa accuracy).1
  omega

theorem le_log2 {m k : Nat} (h : 2 ^ k ≤ m) : k ≤ m.log2 :=
  (Nat.le_log2 (Nat.ne_of_gt (Nat.lt_of_lt_of_le (Nat.two_pow_pos k) h))).mpr h

/-- What is rounded leaves the finite range if it is not less than the middle between the largest
number and the next power of two. -/
theorem roundWithAccuracy_beyond {exponent : Int} {mantissa : Nat} (sign : Sign)
    (hleast : -1074 ≤ exponent) (hexponent : exponent ≤ 971)
    (h : (2 ^ 54 - 1) * 2 ^ (971 - exponent).toNat ≤ 2 * mantissa) :
    Beyond (roundWithAccuracy Format.binary64 sign mantissa exponent .exact) := by
  obtain ⟨k, hk⟩ : ∃ k : Nat, (k : Int) = 971 - exponent := ⟨(971 - exponent).toNat, by omega⟩
  rw [← hk, Int.toNat_natCast] at h
  have hlog : 52 + k ≤ mantissa.log2 := by
    refine le_log2 ?_
    have hpow : 2 * 2 ^ (52 + k) = 2 ^ 53 * 2 ^ k := by rw [← pow_succ', ← pow_add]; congr 1; omega
    have hle : 2 ^ 53 * 2 ^ k ≤ (2 ^ 54 - 1) * 2 ^ k := Nat.mul_le_mul_right _ (by decide)
    omega
  obtain ⟨hfirst, hhalves, hlarge⟩ :=
    shift_of_log2 exponent .exact (Nat.le_of_add_right_le hlog) hleast
  unfold roundWithAccuracy
  generalize shiftToTargetExponent Format.binary64 mantissa exponent .exact = first at *
  obtain ⟨em, e⟩ := first
  dsimp only at hfirst hhalves hlarge ⊢
  obtain ⟨hrounded, -, htop⟩ := roundedMantissa_spec em
  have hround : 52 ≤ em.roundedMantissa.log2 := le_log2 (by omega)
  -- At the largest exponent the mantissa is rounded up to one more bit.
  have hup : mantissa.log2 = 52 + k → 53 ≤ em.roundedMantissa.log2 := by
    intro heq
    refine le_log2 (htop ?_)
    rw [hhalves, heq, Nat.add_sub_cancel_left, Nat.le_div_iff_mul_le (Nat.two_pow_pos k)]
    exact h.trans (startHalves_le mantissa .exact).1
  obtain ⟨hsecond, -, hfinal⟩ := shift_of_log2 e .exact hround (by omega)
  generalize shiftToTargetExponent Format.binary64 em.roundedMantissa e .exact = second at *
  obtain ⟨em', e'⟩ := second
  dsimp only at hsecond hfinal ⊢
  have hpositive : em'.mantissa ≠ 0 := by
    intro hzero
    have hbit : em'.roundBit.toNat ≤ 1 := Bool.toNat_le em'.roundBit
    rw [halves, hzero] at hfinal
    omega
  rw [dif_neg hpositive]
  show 971 < e'
  by_cases heq : mantissa.log2 = 52 + k
  · have := hup heq
    omega
  · omega

/-! ### Packed numbers -/

/-- What leaves the finite range is packed as an infinity. -/
theorem unpack_pack_beyond {f : UnpackedFloat} (h : Beyond f) :
    ∃ sign, unpack Format.binary64 (pack Format.binary64 f) = .infinity sign := by
  have hinfinity (sign : Sign) :
      unpack Format.binary64 (packedInfinity Format.binary64 sign) = .infinity sign := by
    cases sign
    · rfl
    · rfl
  cases f with
  | notANumber => exact h.elim
  | zero sign => exact h.elim
  | infinity sign => exact ⟨sign, hinfinity sign⟩
  | finite sign mantissa exponent hpos =>
    have hexponent : 971 < exponent := h
    unfold UnpackedFloat.pack
    dsimp only
    rw [if_pos]
    · exact ⟨sign, hinfinity sign⟩
    · show 2048 ≤ (exponent + (1023 : Nat) + (52 : Nat)).toNat + 1
      omega

/-- Whether a number is infinite. -/
def IsInfinite (x : Float) : Prop := ∃ sign, x.toModel.unpack = .infinity sign

theorem IsInfinite.isFinite {x : Float} (h : IsInfinite x) : x.isFinite = false := by
  obtain ⟨sign, h⟩ := h
  show x.toModel.unpack.isFinite = false
  rw [h]
  rfl

/-- The sign does not count. -/
theorem IsInfinite.neg {x : Float} (h : IsInfinite x) : IsInfinite (-x) := by
  obtain ⟨sign, h⟩ := h
  show ∃ sign, unpack Format.binary64 (pack Format.binary64 x.toModel.unpack.neg) = _
  rw [h]
  exact unpack_pack_beyond trivial

/-- Products with exact mantissas leave the finite range from the limit on. -/
theorem mul_beyond {m₁ m₂ : Nat} {e₁ e₂ : Int} (s₁ s₂ : Sign) {h₁ : 0 < m₁} {h₂ : 0 < m₂}
    (hleast : -1074 ≤ e₁ + e₂) (k : Nat) (hk : (k : Int) = 971 - (e₁ + e₂))
    (h : (2 ^ 54 - 1) * 2 ^ k ≤ 2 * (m₁ * m₂)) :
    Beyond (mul Format.binary64 (.finite s₁ m₁ e₁ h₁) (.finite s₂ m₂ e₂ h₂)) := by
  have hnat : (971 - (e₁ + e₂)).toNat = k := by omega
  exact roundWithAccuracy_beyond (s₁ * s₂) hleast (by omega) (hnat ▸ h)

theorem small_lt_limit : 2 ^ 53 * 10 ^ 22 < limit := by
  have hpow : 2 ^ 88 ≤ 2 ^ 970 := pow_le_pow_right₀ (by decide) (by decide)
  rw [limit]
  calc 2 ^ 53 * 10 ^ 22 < (2 ^ 54 - 1) * 2 ^ 88 := by decide
    _ ≤ (2 ^ 54 - 1) * 2 ^ 970 := Nat.mul_le_mul_left _ hpow

theorem ofScientific_beyond {m e : Nat} (h : limit ≤ m * 10 ^ e) :
    Beyond (UnpackedFloat.ofScientific Format.binary64 m e) := by
  have hzero : m ≠ 0 := by
    rintro rfl
    rw [Nat.zero_mul] at h
    exact Nat.not_lt_of_le h (Nat.zero_lt_of_lt small_lt_limit)
  unfold UnpackedFloat.ofScientific
  rw [dif_neg hzero]
  by_cases hlarge : (e : Int) > 2 ^ Format.binary64.exponentBits
  · rw [if_pos hlarge]
    trivial
  have htiny : ¬(e : Int) < -(2 ^ Format.binary64.exponentBits + (m.log2 : Int)) := by
    show ¬(e : Int) < -(2048 + (m.log2 : Int))
    omega
  rw [if_neg hlarge, if_neg htiny, if_pos (Int.natCast_nonneg e)]
  have hshift : m <<< Format.binary64.mantissaBits = m * 2 ^ 53 := Nat.shiftLeft_eq m 53
  refine mul_beyond _ _ (by decide) 1024 (by decide) ?_
  rw [hshift, ← limit_mul, Int.toNat_natCast]
  have hproduct : 2 * (m * 2 ^ 53 * 10 ^ e) = m * 10 ^ e * 2 ^ 54 := by ring
  rw [hproduct]
  exact Nat.mul_le_mul_right _ h

/-- An integer from the limit on is read as an infinity. -/
theorem isInfinite_ofScientific {m e : Nat} (h : limit ≤ m * 10 ^ e) :
    IsInfinite (Float.ofScientific m false e) := by
  have hlarge : ¬(m < 2 ^ 53 ∧ e ≤ 22) := by
    rintro ⟨hm, he⟩
    have hproduct := Nat.mul_le_mul (Nat.le_of_lt hm) (ten_pow_le he)
    exact Nat.not_lt_of_le (h.trans hproduct) small_lt_limit
  rw [Float.ofScientific, dif_neg hlarge]
  exact unpack_pack_beyond (ofScientific_beyond h)

end CollectorTemplate.Rounding

namespace CollectorTemplate.Decimal.Written

open Rounding

variable {negative : Bool} {m : Nat}

/-- An integer with its sign. -/
def ofNat (negative : Bool) (m : Nat) : Written := ⟨negative, m, 0⟩

/-- The size of an integer other than zero: all integers with very many digits have the same. -/
def sizeOfNat (m : Nat) : Float :=
  if 400 < (Nat.repr m).length then Float.ofScientific 1 false 400 else Float.ofNat m

theorem toFloat_ofNat (negative : Bool) (hzero : m ≠ 0) :
    (ofNat negative m).toFloat = if negative then -sizeOfNat m else sizeOfNat m := by
  have hsize : (if m = 0 then (0 : Float)
      else if 400 < (0 : Int) + (Nat.repr m).length then Float.ofScientific 1 false 400
      else if (0 : Int) + (Nat.repr m).length < -400 then 0
      else Float.ofScientific m (decide ((0 : Int) < 0)) (0 : Int).natAbs) = sizeOfNat m := by
    rw [if_neg hzero, sizeOfNat]
    by_cases hlength : 400 < (Nat.repr m).length
    · rw [if_pos hlength, if_pos (by omega)]
    · rw [if_neg hlength, if_neg (by omega), if_neg (by omega)]
      rfl
  exact congrArg (fun size => if negative then -size else size) hsize

theorem abs_value_ofNat : |(ofNat negative m).value| = m := by
  rw [abs_value]
  exact mul_one _

/-- An integer is read as a finite number just if it stays below the limit. -/
theorem isFinite_toFloat_iff : (ofNat negative m).toFloat.isFinite = true ↔ m < limit := by
  constructor
  · intro hfinite
    by_contra hlarge
    have hlarge : limit ≤ m := Nat.le_of_not_lt hlarge
    have hzero : m ≠ 0 := by
      rintro rfl
      exact Nat.not_lt_of_le hlarge (Nat.zero_lt_of_lt small_lt_limit)
    have hlong : limit ≤ 1 * 10 ^ 400 := (Nat.one_mul _).symm ▸ Nat.le_of_lt limit_lt
    have hsize : IsInfinite (sizeOfNat m) := by
      unfold sizeOfNat
      split
      · exact isInfinite_ofScientific hlong
      · exact isInfinite_ofScientific (hlarge.trans_eq (Nat.mul_one m).symm)
    have hinfinite : IsInfinite (ofNat negative m).toFloat := by
      rw [toFloat_ofNat negative hzero]
      cases negative with
      | true => exact hsize.neg
      | false => exact hsize
    rw [hinfinite.isFinite] at hfinite
    nomatch hfinite
  · intro h
    refine isFinite_toFloat ?_
    rw [abs_value_ofNat]
    exact_mod_cast h

/-- Below the limit an integer other than zero is read as the number nearest to it. -/
theorem toFloat_eq_ofInt (hzero : m ≠ 0) (h : m < limit) :
    (ofNat negative m).toFloat = Float.ofInt (if negative then -(m : Int) else m) := by
  have hlength : (0 : Int) + (Nat.repr m).length ≤ 400 :=
    length_le (w := ofNat negative m) hzero (by simpa [ofNat] using h)
  have hsize : sizeOfNat m = Float.ofNat m := if_neg (by omega)
  rw [toFloat_ofNat negative hzero, hsize]
  cases negative with
  | false => rfl
  | true =>
    obtain ⟨k, rfl⟩ := Nat.exists_eq_succ_of_ne_zero hzero
    rfl

end CollectorTemplate.Decimal.Written
