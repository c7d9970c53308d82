/-
Rounding that stays within the finite range.

What is computed of two floating-point numbers is rounded to 53 bits.  Its exponent stays below a
bound if the exact result lies below the middle between the largest number under the bound and the
next one, so that nothing carries over the top.

* `Within` : no more than a given exponent, so neither infinite nor no number;
* `roundWithAccuracy_within` : what is rounded stays below a bound;
* `isFinite_pack` : what stays below the largest exponent is finite.
-/
import Mathlib.Algebra.Field.Rat
import Mathlib.Tactic.Ring

namespace CollectorTemplate.Rounding

open Float.Model Float.Model.UnpackedFloat

/-! ### Mantissas with residual bits -/

/-- A mantissa with its round bit, in halves of the last place. -/
def halves (em : ExtendedMantissa) : Nat := 2 * em.mantissa + em.roundBit.toNat

theorem halves_shiftRightOne (em : ExtendedMantissa) : halves em.shiftRightOne = halves em / 2 := by
  obtain ⟨mantissa, roundBit, stickyBit⟩ := em
  have hbit : (mantissa % 2 != 0).toNat = mantissa % 2 := by
    rcases Nat.mod_two_eq_zero_or_one mantissa with h | h <;> rw [h] <;> rfl
  have hround : roundBit.toNat ≤ 1 := Bool.toNat_le roundBit
  show 2 * (mantissa / 2) + (mantissa % 2 != 0).toNat = (2 * mantissa + roundBit.toNat) / 2
  rw [hbit]
  omega

theorem halves_shiftRight (em : ExtendedMantissa) (n : Nat) :
    halves (em >>> n) = halves em / 2 ^ n := by
  induction n with
  | zero => exact (Nat.div_one _).symm
  | succ n ih =>
    show halves (em >>> n).shiftRightOne = _
    rw [halves_shiftRightOne, ih, Nat.div_div_eq_div_mul, pow_succ]

/-- Rounding goes to the whole halves or to the next, and to the next from the last half of the
largest mantissa. -/
theorem roundedMantissa_spec (em : ExtendedMantissa) :
    halves em / 2 ≤ em.roundedMantissa ∧ em.roundedMantissa ≤ (halves em + 1) / 2 ∧
      (2 ^ 54 - 1 ≤ halves em → 2 ^ 53 ≤ em.roundedMantissa) := by
  obtain ⟨mantissa, roundBit, stickyBit⟩ := em
  cases roundBit <;> cases stickyBit <;>
    simp only [ExtendedMantissa.roundedMantissa, ExtendedMantissa.accuracy,
      Accuracy.roundToNearestEven, halves, Bool.toNat_false, Bool.toNat_true] <;> omega

/-! ### Shifts to the format -/

/-- A format of 53 bits, whose least exponent is -1074. -/
theorem targetExponent_eq (total : Int) :
    Format.binary64.targetExponent total = max (total - 53) (-1074) := rfl

theorem log2_lt_of_lt {m k : Nat} (h : m < 2 ^ (k + 1)) : m.log2 ≤ k := by
  by_cases hm : m = 0
  · rw [hm]
    exact Nat.zero_le k
  · exact Nat.lt_succ_iff.mp ((Nat.log2_lt hm).mpr h)

/-- The halves of a mantissa before it is shifted. -/
def startHalves (mantissa : Nat) (accuracy : Accuracy) : Nat :=
  halves (.ofMantissaAndAccuracy mantissa accuracy)

/-- How a mantissa is shifted to the format: the exponent does not fall, and is as small as 53 bits
and the least exponent allow. -/
theorem shiftToTargetExponent_spec (mantissa : Nat) (exponent : Int) (accuracy : Accuracy) :
    ∃ n : Nat,
      (n : Int) = max (max (mantissa.log2 + 1 + exponent - 53) (-1074) - exponent) 0 ∧
      (shiftToTargetExponent Format.binary64 mantissa exponent accuracy).2 = exponent + n ∧
      halves (shiftToTargetExponent Format.binary64 mantissa exponent accuracy).1 =
        startHalves mantissa accuracy / 2 ^ n := by
  refine ⟨_, ?_, rfl, halves_shiftRight _ _⟩
  rw [targetExponent_eq, totalExponent, Int.toNat_eq_max]

theorem startHalves_le (mantissa : Nat) (accuracy : Accuracy) :
    2 * mantissa ≤ startHalves mantissa accuracy ∧
      startHalves mantissa accuracy ≤ 2 * mantissa + 1 := by
  cases accuracy with
  | exact => exact ⟨Nat.le_refl _, Nat.le_succ _⟩
  | inexact order =>
    cases order with
    | lt => exact ⟨Nat.le_refl _, Nat.le_succ _⟩
    | eq => exact ⟨Nat.le_succ _, Nat.le_refl _⟩
    | gt => exact ⟨Nat.le_succ _, Nat.le_refl _⟩

/-! ### Bounds -/

/-- Neither infinite nor no number, with an exponent up to a bound. -/
def Within (top : Int) : UnpackedFloat → Prop
  | .zero _ => True
  | .finite _ _ exponent _ => exponent ≤ top
  | _ => False

theorem within_of_mantissa {top exponent : Int} {mantissa : Nat} (sign : Sign)
    (h : exponent ≤ top) :
    Within top (if hzero : mantissa = 0 then .zero sign
      else .finite sign mantissa exponent (Nat.pos_of_ne_zero hzero)) := by
  by_cases hzero : mantissa = 0
  · rw [dif_pos hzero]
    trivial
  · rw [dif_neg hzero]
    exact h

/-- What is rounded stays below a bound if it is less than the middle between the largest number
under the bound and the next one. -/
theorem roundWithAccuracy_within {top exponent : Int} {mantissa : Nat} {accuracy : Accuracy}
    (sign : Sign) (htop : -1074 ≤ top) (hexponent : exponent ≤ top)
    (h : startHalves mantissa accuracy < (2 ^ 54 - 1) * 2 ^ (top - exponent).toNat) :
    Within top (roundWithAccuracy Format.binary64 sign mantissa exponent accuracy) := by
  obtain ⟨k, hk⟩ : ∃ k : Nat, (k : Int) = top - exponent := ⟨(top - exponent).toNat, by omega⟩
  rw [← hk, Int.toNat_natCast] at h
  obtain ⟨hlow, hhigh⟩ := startHalves_le mantissa accuracy
  have hmantissa : mantissa.log2 ≤ 52 + k := by
    refine log2_lt_of_lt ?_
    have hpow : 2 ^ (52 + k + 1) = 2 ^ 53 * 2 ^ k := by rw [← pow_add]; congr 1; omega
    have hle : (2 ^ 54 - 1) * 2 ^ k ≤ 2 * (2 ^ 53 * 2 ^ k) := by
      rw [← Nat.mul_assoc]
      exact Nat.mul_le_mul_right _ (by decide)
    omega
  obtain ⟨n, hn, hfirst, hhalves⟩ := shiftToTargetExponent_spec mantissa exponent accuracy
  unfold roundWithAccuracy
  generalize shiftToTargetExponent Format.binary64 mantissa exponent accuracy = first at *
  obtain ⟨em, e⟩ := first
  dsimp only at hfirst hhalves ⊢
  -- The rounded mantissa takes one bit too many at most, and none at the top.
  have hrounded := (roundedMantissa_spec em).2.1
  rw [hhalves] at hrounded
  have hbits : startHalves mantissa accuracy / 2 ^ n < 2 ^ 54 := by
    rw [Nat.div_lt_iff_lt_mul (Nat.two_pow_pos n), ← pow_add]
    have hself : mantissa < 2 ^ (mantissa.log2 + 1) := Nat.lt_log2_self
    have hpow : 2 * 2 ^ (mantissa.log2 + 1) ≤ 2 ^ (54 + n) := by
      rw [← pow_succ']
      exact Nat.pow_le_pow_right Nat.two_pos (by omega)
    omega
  have hlast : n = k → startHalves mantissa accuracy / 2 ^ n < 2 ^ 54 - 1 := by
    rintro rfl
    exact (Nat.div_lt_iff_lt_mul (Nat.two_pow_pos n)).mpr h
  obtain ⟨m, hm, hsecond, -⟩ := shiftToTargetExponent_spec em.roundedMantissa e .exact
  have hlog : em.roundedMantissa.log2 ≤ 53 := log2_lt_of_lt (by omega)
  have hloglast : n = k → em.roundedMantissa.log2 ≤ 52 := fun heq => log2_lt_of_lt (by
    have := hlast heq
    omega)
  have hfinal : (shiftToTargetExponent Format.binary64 em.roundedMantissa e .exact).2 ≤ top := by
    rw [hsecond]
    by_cases heq : n = k
    · have := hloglast heq
      omega
    · omega
  exact within_of_mantissa sign hfinal

/-! ### Packed numbers -/

/-- A number of the format has the exponent that its bits write. -/
theorem unpack_bits_within {top : Int} (hleast : -1074 ≤ top)
    {bits : BitVec Format.binary64.numBits} (hfinite : (unpackExponent bits).toNat < 2047)
    (htop : ((unpackExponent bits).toNat : Int) - 1075 ≤ top) :
    Within top (unpack Format.binary64 bits) := by
  have hones : unpackExponent bits ≠ -1#_ := by
    intro hones
    rw [hones] at hfinite
    exact absurd hfinite (by decide)
  unfold UnpackedFloat.unpack
  dsimp only
  rw [if_neg hones]
  by_cases hzero : unpackExponent bits = 0#_
  · rw [if_pos hzero]
    by_cases hmantissa : unpackMantissa bits = 0#_
    · rw [dif_pos hmantissa]
      trivial
    · rw [dif_neg hmantissa, hzero]
      show (((0#11).toNat : Int) - (1023 + 52)) + 1 ≤ top
      have : ((0#11).toNat : Int) = 0 := rfl
      omega
  · rw [if_neg hzero]
    show ((unpackExponent bits).toNat : Int) - (1023 + 52) ≤ top
    omega

/-- A number of the format by its parts. -/
theorem unpack_components_within {top : Int} (hleast : -1074 ≤ top) (sign : Sign)
    {exponent : BitVec 11} (mantissa : BitVec 52) (hfinite : exponent.toNat < 2047)
    (htop : (exponent.toNat : Int) - 1075 ≤ top) :
    Within top
      (unpack Format.binary64 (packComponents Format.binary64 sign exponent mantissa)) := by
  refine unpack_bits_within hleast ?_ ?_
  · rw [unpackExponent_packComponents]
    exact hfinite
  · rw [unpackExponent_packComponents]
    exact htop

/-- What stays below the largest exponent is packed with its exponent, or as a number of the least
exponent. -/
theorem unpack_pack_within {top : Int} (hleast : -1074 ≤ top) (htop : top ≤ 971)
    {f : UnpackedFloat} (h : Within top f) :
    Within top (unpack Format.binary64 (pack Format.binary64 f)) := by
  cases f with
  | notANumber => exact h.elim
  | infinity sign => exact h.elim
  | zero sign =>
    refine unpack_components_within hleast sign 0 ?_ ?_
    · decide
    · show (0 : Int) - 1075 ≤ top
      omega
  | finite sign mantissa exponent hpos =>
    have hexponent : exponent ≤ top := h
    unfold UnpackedFloat.pack
    dsimp only
    split
    · rename_i hlarge
      -- Under the bound no number is packed as an infinity.
      have hlarge : 2048 ≤ (exponent + (1023 : Nat) + (52 : Nat)).toNat + 1 := hlarge
      omega
    rename_i hsmall
    have hsmall : ¬2048 ≤ (exponent + (1023 : Nat) + (52 : Nat)).toNat + 1 := hsmall
    have hbiased : (BitVec.ofNat 11 (exponent + (1023 : Nat) + (52 : Nat)).toNat).toNat =
        (exponent + (1023 : Nat) + (52 : Nat)).toNat := by
      rw [BitVec.toNat_ofNat]
      exact Nat.mod_eq_of_lt (by omega)
    split
    · refine unpack_components_within hleast sign (BitVec.ofNat _ mantissa) ?_ ?_
      · show (BitVec.ofNat 11 (exponent + (1023 : Nat) + (52 : Nat)).toNat).toNat < 2047
        omega
      · show ((BitVec.ofNat 11 (exponent + (1023 : Nat) + (52 : Nat)).toNat).toNat : Int) - 1075 ≤
          top
        omega
    · refine unpack_components_within hleast sign _ (by decide) ?_
      show (0 : Int) - 1075 ≤ top
      omega

/-- The largest exponent stands for what is infinite or no number. -/
theorem biased_lt {exponent : BitVec 11} (h : exponent ≠ -1#11) : exponent.toNat < 2047 := by
  have hlt : exponent.toNat < 2048 := exponent.isLt
  have hne : exponent.toNat ≠ 2047 := fun heq => h (BitVec.eq_of_toNat_eq heq)
  omega

/-- A number of the format has a mantissa of 53 bits, and no more than the largest exponent. -/
theorem finite_of_unpack {bits : BitVec Format.binary64.numBits} {sign : Sign} {mantissa : Nat}
    {exponent : Int} {hpos : 0 < mantissa}
    (h : unpack Format.binary64 bits = .finite sign mantissa exponent hpos) :
    mantissa < 2 ^ 53 ∧ exponent ≤ 971 := by
  unfold UnpackedFloat.unpack at h
  dsimp only at h
  by_cases hones : unpackExponent bits = -1#_
  · rw [if_pos hones] at h
    by_cases hinfinite : unpackMantissa bits = 0#_
    · rw [if_pos hinfinite] at h
      exact UnpackedFloat.noConfusion h
    · rw [if_neg hinfinite] at h
      exact UnpackedFloat.noConfusion h
  rw [if_neg hones] at h
  have hbiased := biased_lt hones
  -- One bound for the numbers with a full mantissa, and one for those of the least exponent.
  have hbound : ((unpackExponent bits).toNat : Int) - (1023 + 52) ≤ 971 := by omega
  have hleast : ((0#11).toNat : Int) - (1023 + 52) + 1 ≤ 971 := by decide
  by_cases hsubnormal : unpackExponent bits = 0#_
  · rw [if_pos hsubnormal] at h
    by_cases hzero : unpackMantissa bits = 0#_
    · rw [dif_pos hzero] at h
      exact UnpackedFloat.noConfusion h
    · rw [dif_neg hzero] at h
      obtain ⟨-, hmantissa, hexponent⟩ := UnpackedFloat.finite.inj h
      have hlt : mantissa < 2 ^ 52 := hmantissa ▸ (BitVec.isLt _)
      rw [hsubnormal] at hexponent
      exact ⟨Nat.lt_of_lt_of_le hlt (by decide), hexponent ▸ hleast⟩
  · rw [if_neg hsubnormal] at h
    obtain ⟨-, hmantissa, hexponent⟩ := UnpackedFloat.finite.inj h
    exact ⟨hmantissa ▸ (BitVec.isLt _), hexponent ▸ hbound⟩

/-- A finite number stays below the largest exponent. -/
theorem unpack_within {x : Float} (h : x.isFinite = true) : Within 971 x.toModel.unpack := by
  have h : x.toModel.unpack.isFinite = true := h
  cases hunpack : x.toModel.unpack with
  | notANumber => rw [hunpack] at h; exact absurd h Bool.false_ne_true
  | infinity sign => rw [hunpack] at h; exact absurd h Bool.false_ne_true
  | zero sign => trivial
  | finite sign mantissa exponent hpos => exact (finite_of_unpack hunpack).2

/-- What stays below the largest exponent is finite. -/
theorem isFinite_pack {f : UnpackedFloat} (h : Within 971 f) :
    (Float.Model.pack f).isFinite = true := by
  have hwithin := unpack_pack_within (by decide) (by decide) h
  show (unpack Format.binary64 (pack Format.binary64 f)).isFinite = true
  generalize unpack Format.binary64 (pack Format.binary64 f) = g at hwithin
  cases g with
  | notANumber => exact hwithin.elim
  | infinity sign => exact hwithin.elim
  | zero sign => rfl
  | finite sign mantissa exponent hpos => rfl

end CollectorTemplate.Rounding
