/-
The shortest decimals of finite numbers.

The decimal that is written for a finite number reads back to it, so that it lies between the
middles to the number's neighbours, and is below the largest of these middles.

* `Binary.ofFloat_bounded` : the mantissa and the exponent of a finite number;
* `Decimal.value_le_of_readsBack` : what reads back to a number lies near it;
* `Decimal.exists_onGrid?` : some grid has a decimal that reads back;
* `Decimal.shortest_lt_limit` : the shortest decimal is below the limit of the finite range;
* `NumberFormat.isFinite_floatNumber` : what is written for a finite number is read as one.
-/
import CollectorTemplate.Decimal.Shortest
import CollectorTemplate.Proofs.Decimal.Finite
import Mathlib.Tactic.FieldSimp

namespace CollectorTemplate

/-! ### Finite numbers -/

namespace Binary

open Float.Model Float.Model.UnpackedFloat

/-- The size of a number. -/
def value (b : Binary) : ℚ := b.mantissa * 2 ^ b.exponent

/-- Mantissa and exponent of a finite number. -/
structure Bounded (b : Binary) : Prop where
  mantissa_lt : b.mantissa < 2 ^ 53
  le_exponent : -1074 ≤ b.exponent
  exponent_le : b.exponent ≤ 971

/-- The exponent among the bits of a number. -/
theorem toNat_unpackExponent (bits : BitVec 64) :
    (@unpackExponent Format.binary64 bits).toNat = bits.toNat / 2 ^ 52 % 2 ^ 11 := by
  show (bits.extractLsb (52 + 11 - 1) 52).toNat = _
  rw [BitVec.extractLsb_toNat, Nat.shiftRight_eq_div_pow]

theorem ofFloat_bounded {x : Float} (hnan : x.isNaN = false) (hinf : x.isInf = false) :
    (ofFloat x).Bounded := by
  -- The largest exponent among the bits is kept for what is not finite.
  have hones : @unpackExponent Format.binary64 x.toBits.toBitVec ≠ -1#11 := by
    intro hones
    have hnan : (unpack Format.binary64 x.toBits.toBitVec).isNaN = false := hnan
    have hinf : (unpack Format.binary64 x.toBits.toBitVec).isInf = false := hinf
    unfold UnpackedFloat.unpack at hnan hinf
    dsimp only at hnan hinf
    rw [if_pos hones] at hnan hinf
    by_cases hmantissa : @unpackMantissa Format.binary64 x.toBits.toBitVec = 0#_
    · rw [if_pos hmantissa] at hinf
      exact absurd hinf (Bool.noConfusion)
    · rw [if_neg hmantissa] at hnan
      exact absurd hnan (Bool.noConfusion)
  have hbiased : x.toBits.toNat / 2 ^ 52 % 2 ^ 11 < 2047 := by
    rw [← UInt64.toNat_toBitVec, ← toNat_unpackExponent]
    exact Rounding.biased_lt hones
  have hsize : Width.size 52 = 2 ^ 52 := rfl
  have hbiasedSize : Width.size 11 = 2 ^ 11 := rfl
  have hfraction : x.toBits.toNat % 2 ^ 52 < 2 ^ 52 := Nat.mod_lt _ (Nat.two_pow_pos 52)
  rw [ofFloat, ofBits, hsize, hbiasedSize]
  generalize x.toBits.toNat / 2 ^ 52 % 2 ^ 11 = biased at hbiased
  generalize x.toBits.toNat % 2 ^ 52 = fraction at hfraction
  split
  · have hleast : (-1074 : Int) ≤ 971 := by decide
    exact ⟨Nat.lt_trans hfraction (by decide), le_refl _, hleast⟩
  · rename_i hnonzero
    refine ⟨?_, ?_, ?_⟩
    · show 2 ^ 52 + fraction < 2 ^ 53
      omega
    · show -1074 ≤ (biased : Int) - 1075
      omega
    · show (biased : Int) - 1075 ≤ 971
      omega

end Binary

namespace Decimal

/-! ### Powers of both bases -/

/-- The two numbers that stand for a factor, with a denominator in common. -/
theorem scale_spec (q k : Int) : ∃ common : ℚ, 0 < common ∧
    ((scale q k).1 : ℚ) = 2 ^ q * common ∧ ((scale q k).2 : ℚ) = 10 ^ k * common := by
  refine ⟨2 ^ (-q).toNat * 10 ^ (-k).toNat, by positivity, ?_, ?_⟩
  · show ((2 ^ q.toNat * 10 ^ (-k).toNat : Nat) : ℚ) = _
    rw [zpow_eq_div two_ne_zero q]
    push_cast
    field_simp
  · show ((2 ^ (-q).toNat * 10 ^ k.toNat : Nat) : ℚ) = _
    rw [zpow_eq_div (by norm_num) k]
    push_cast
    field_simp

/-- The point `point · 10 ^ k` is compared with `size · 2 ^ q`. -/
theorem scale_le_iff (size point : Nat) (q k : Int) :
    point * (scale q k).2 ≤ size * (scale q k).1 ↔ (point : ℚ) * 10 ^ k ≤ size * 2 ^ q := by
  obtain ⟨common, hpos, hnum, hden⟩ := scale_spec q k
  rw [← Nat.cast_le (α := ℚ), Nat.cast_mul, Nat.cast_mul, hnum, hden, ← mul_assoc, ← mul_assoc]
  exact mul_le_mul_iff_left₀ hpos

theorem scale_lt_iff (size point : Nat) (q k : Int) :
    point * (scale q k).2 < size * (scale q k).1 ↔ (point : ℚ) * 10 ^ k < size * 2 ^ q := by
  obtain ⟨common, hpos, hnum, hden⟩ := scale_spec q k
  rw [← Nat.cast_lt (α := ℚ), Nat.cast_mul, Nat.cast_mul, hnum, hden, ← mul_assoc, ← mul_assoc]
  exact mul_lt_mul_iff_left₀ hpos

theorem lt_scale_iff (size point : Nat) (q k : Int) :
    size * (scale q k).1 < point * (scale q k).2 ↔ (size : ℚ) * 2 ^ q < point * 10 ^ k := by
  rw [← not_le, ← not_le, scale_le_iff]

/-! ### Reading back -/

variable {b : Binary} {d : Decimal}

/-- What reads back to a number is no further away than the middle to the next one, and nearer if
the mantissa is odd. -/
theorem value_le_of_readsBack (h : readsBack b d = true) :
    d.value ≤ (4 * b.mantissa + 2 : Nat) * 2 ^ (b.exponent - 2) ∧
      (b.mantissa % 2 ≠ 0 → d.value < (4 * b.mantissa + 2 : Nat) * 2 ^ (b.exponent - 2)) := by
  unfold readsBack at h
  simp only [] at h
  split at h
  · rename_i heven
    have hpoint := of_decide_eq_true (Bool.and_eq_true_iff.mp h).2
    exact ⟨(scale_le_iff _ _ _ _).mp hpoint, fun hodd => absurd heven hodd⟩
  · have hpoint := (scale_lt_iff _ _ _ _).mp (of_decide_eq_true (Bool.and_eq_true_iff.mp h).2)
    exact ⟨le_of_lt hpoint, fun _ => hpoint⟩

/-- What lies below a number by less than a quarter of its last place reads back to it. -/
theorem readsBack_of_lt (hpos : 0 < b.mantissa) (hle : d.value ≤ b.value)
    (hlt : b.value < d.value + 2 ^ (b.exponent - 2)) : readsBack b d = true := by
  -- In quarters of the last place the number and both middles are whole.
  have hquarter : b.value = (4 * b.mantissa : Nat) * 2 ^ (b.exponent - 2) := by
    rw [Binary.value, zpow_sub₀ two_ne_zero]
    push_cast
    ring
  have hstep : (0 : ℚ) < 2 ^ (b.exponent - 2) := zpow_pos two_pos _
  have hlow (gap : Nat) (hgap : 1 ≤ gap) :
      (4 * b.mantissa - gap) * (scale (b.exponent - 2) d.exponent).1 <
        d.digits * (scale (b.exponent - 2) d.exponent).2 := by
    rw [lt_scale_iff]
    have hsub : ((4 * b.mantissa - gap : Nat) : ℚ) + 1 ≤ (4 * b.mantissa : Nat) := by
      exact_mod_cast (by omega : 4 * b.mantissa - gap + 1 ≤ 4 * b.mantissa)
    have hscaled := mul_le_mul_of_nonneg_right hsub (le_of_lt hstep)
    rw [hquarter] at hlt
    have hvalue : d.value = d.digits * 10 ^ d.exponent := rfl
    linarith
  have hhigh : d.digits * (scale (b.exponent - 2) d.exponent).2 <
      (4 * b.mantissa + 2) * (scale (b.exponent - 2) d.exponent).1 := by
    rw [scale_lt_iff]
    push_cast at hquarter ⊢
    have hvalue : d.value = d.digits * 10 ^ d.exponent := rfl
    linarith
  have hgap : 1 ≤ (if b.narrow = true then 1 else 2) := by split <;> decide
  unfold readsBack
  simp only []
  split
  · exact Bool.and_eq_true_iff.mpr
      ⟨decide_eq_true (Nat.le_of_lt (hlow _ hgap)), decide_eq_true (Nat.le_of_lt hhigh)⟩
  · exact Bool.and_eq_true_iff.mpr ⟨decide_eq_true (hlow _ hgap), decide_eq_true hhigh⟩

/-! ### Grids -/

theorem readsBack_of_onGrid? {k : Int} (h : onGrid? b k = some d) : readsBack b d = true := by
  unfold onGrid? at h
  simp only [] at h
  split at h
  · rename_i hlower hupper
    split at h
    · exact Option.some.inj h ▸ hlower
    · exact Option.some.inj h ▸ hupper
  · rename_i hlower hupper
    exact Option.some.inj h ▸ hlower
  · rename_i hlower hupper
    exact Option.some.inj h ▸ hupper
  · exact absurd h.symm (Option.some_ne_none d)

/-- On a grid finer than a quarter of the last place, the point below the number reads back. -/
theorem isSome_onGrid? {k : Int} (hpos : 0 < b.mantissa)
    (hfine : (10 : ℚ) ^ k ≤ 2 ^ (b.exponent - 2)) : (onGrid? b k).isSome = true := by
  have hdigits : readsBack b
      ⟨b.mantissa * (scale b.exponent k).1 / (scale b.exponent k).2, k⟩ = true := by
    generalize hbelow : b.mantissa * (scale b.exponent k).1 / (scale b.exponent k).2 = below
    have hden : 0 < (scale b.exponent k).2 :=
      Nat.mul_pos (Nat.pow_pos Nat.two_pos) (Nat.pow_pos (by decide))
    refine readsBack_of_lt hpos ?_ ?_
    · refine (scale_le_iff b.mantissa below b.exponent k).mp ?_
      rw [← hbelow]
      exact Nat.div_mul_le_self _ _
    · have hnext : b.value < (below + 1 : Nat) * 10 ^ k := by
        refine (lt_scale_iff b.mantissa (below + 1) b.exponent k).mp ?_
        rw [← hbelow]
        exact Nat.lt_mul_of_div_lt (Nat.lt_succ_self _) hden
      have hvalue : (⟨below, k⟩ : Decimal).value = below * 10 ^ k := rfl
      push_cast at hnext
      linarith
  unfold onGrid?
  simp only [hdigits]
  split
  · split <;> rfl
  · rfl
  · rfl
  · rename_i hlower hupper
    exact absurd hlower (by decide)

/-! ### The leading digit -/

/-- The guess of the leading place is too large by one at most, for all powers of two among the
numbers of the format. -/
theorem guess_table : ∀ n : Nat, n < 2098 →
    (scale ((n : Int) - 1074) (((n : Int) - 1074) * 30103 / 100000 - 1)).2 ≤
      (scale ((n : Int) - 1074) (((n : Int) - 1074) * 30103 / 100000 - 1)).1 := by
  decide +kernel

theorem guess_le {s : Int} (hlow : -1074 ≤ s) (hhigh : s ≤ 1023) :
    (10 : ℚ) ^ (s * 30103 / 100000 - 1) ≤ 2 ^ s := by
  obtain ⟨n, hn⟩ : ∃ n : Nat, (n : Int) - 1074 = s := ⟨(s + 1074).toNat, by omega⟩
  have htable := guess_table n (by omega)
  rw [hn] at htable
  simpa using (scale_le_iff 1 1 s (s * 30103 / 100000 - 1)).mp (by simpa using htable)

/-- The leading digit stands at no higher a place than the number. -/
theorem leading_le (hbounded : b.Bounded) (hpos : 0 < b.mantissa) :
    (10 : ℚ) ^ leading b ≤ b.value := by
  have hatLeast {e : Int} (h : decide ((scale b.exponent e).2 ≤
      b.mantissa * (scale b.exponent e).1) = true) : (10 : ℚ) ^ e ≤ b.value := by
    have hle := (scale_le_iff b.mantissa 1 b.exponent e).mp (by simpa using h)
    rw [Nat.cast_one, one_mul] at hle
    exact hle
  unfold leading
  simp only []
  split
  · exact hatLeast ‹_›
  split
  · exact hatLeast ‹_›
  · -- The last guess is below the power of two in the number, whatever the mantissa.
    have hlog : b.mantissa.log2 ≤ 52 := Rounding.log2_lt_of_lt hbounded.mantissa_lt
    have hself : ((2 ^ b.mantissa.log2 : Nat) : ℚ) ≤ b.mantissa :=
      Nat.cast_le.mpr (Nat.log2_self_le (Nat.ne_of_gt hpos))
    have hlow := hbounded.le_exponent
    have hhigh := hbounded.exponent_le
    calc (10 : ℚ) ^ (((b.mantissa.log2 : Int) + b.exponent) * 30103 / 100000 - 1)
      _ ≤ 2 ^ ((b.mantissa.log2 : Int) + b.exponent) := guess_le (by omega) (by omega)
      _ = ((2 ^ b.mantissa.log2 : Nat) : ℚ) * 2 ^ b.exponent := by
        rw [zpow_add₀ two_ne_zero, zpow_natCast, Nat.cast_pow]
        rfl
      _ ≤ b.value := mul_le_mul_of_nonneg_right hself (le_of_lt (zpow_pos two_pos _))

/-- Some grid has a decimal that reads back: the one seventeen places below the leading digit is
finer than a quarter of the last place. -/
theorem exists_onGrid? (hbounded : b.Bounded) (hpos : 0 < b.mantissa) :
    ∃ d, ((List.range 18).map fun n : Nat => leading b - n).findSome? (onGrid? b) = some d := by
  have hfine : (10 : ℚ) ^ (leading b - 17) ≤ 2 ^ (b.exponent - 2) := by
    have hmantissa : (b.mantissa : ℚ) ≤ 2 ^ 53 := by
      exact_mod_cast Nat.le_of_lt hbounded.mantissa_lt
    have hscale : (0 : ℚ) < 2 ^ b.exponent := zpow_pos two_pos _
    have hleading : (10 : ℚ) ^ leading b ≤ 2 ^ 53 * 2 ^ b.exponent :=
      (leading_le hbounded hpos).trans (mul_le_mul_of_nonneg_right hmantissa (le_of_lt hscale))
    rw [zpow_sub₀ (by norm_num), zpow_sub₀ two_ne_zero, div_le_div_iff₀ (by norm_num) (by norm_num)]
    norm_num at hleading ⊢
    linarith
  have hlast : (((List.range 18).map fun n : Nat => leading b - n).findSome?
      (onGrid? b)).isSome = true := by
    rw [List.findSome?_isSome_iff]
    refine ⟨leading b - 17, ?_, isSome_onGrid? hpos hfine⟩
    exact List.mem_map.mpr ⟨17, List.mem_range.mpr (by decide), rfl⟩
  exact Option.isSome_iff_exists.mp hlast

/-! ### Zeros at the end -/

theorem value_strip (limit : Nat) (d : Decimal) : (strip limit d).value = d.value := by
  induction limit generalizing d with
  | zero => rfl
  | succ limit ih =>
    rw [strip]
    split
    · rename_i hzero
      have hdigits : 10 * (d.digits / 10) = d.digits := by omega
      rw [ih]
      show ((d.digits / 10 : Nat) : ℚ) * 10 ^ (d.exponent + 1) = d.digits * 10 ^ d.exponent
      rw [zpow_add_one₀ (by norm_num)]
      calc ((d.digits / 10 : Nat) : ℚ) * (10 ^ d.exponent * 10)
        _ = ((10 * (d.digits / 10) : Nat) : ℚ) * 10 ^ d.exponent := by push_cast; ring
        _ = d.digits * 10 ^ d.exponent := by rw [hdigits]
    · rfl

/-! ### The shortest decimal -/

/-- What reads back to a finite number is below the limit: it is no further up than the middle to
the next number, and the number whose middle is the limit has an odd mantissa. -/
theorem lt_limit_of_readsBack (hbounded : b.Bounded) (h : readsBack b d = true) :
    d.value < Rounding.limit := by
  obtain ⟨hle, hodd⟩ := value_le_of_readsBack h
  have hexponent := hbounded.exponent_le
  have hmantissa := hbounded.mantissa_lt
  have hlimit : ((Rounding.limit : Nat) : ℚ) = ((2 ^ 55 - 2 : Nat) : ℚ) * 2 ^ (969 : Int) := by
    have hfactor : (2 ^ 54 - 1) * 2 ^ 1 = 2 ^ 55 - 2 := rfl
    have hnat : Rounding.limit = (2 ^ 55 - 2) * 2 ^ 969 := by
      rw [Rounding.limit, ← Rounding.two_pow_mul (show 1 + 969 = 970 from rfl), ← Nat.mul_assoc,
        hfactor]
    rw [hnat, Nat.cast_mul, Nat.cast_pow]
    rfl
  have hscale : (2 : ℚ) ^ (b.exponent - 2) ≤ 2 ^ (969 : Int) :=
    zpow_le_zpow_right₀ one_le_two (by omega)
  have hupper {n : Nat} (hn : 4 * b.mantissa + 2 ≤ n) :
      ((4 * b.mantissa + 2 : Nat) : ℚ) * 2 ^ (b.exponent - 2) ≤ n * 2 ^ (969 : Int) :=
    mul_le_mul (Nat.cast_le.mpr hn) hscale (le_of_lt (zpow_pos two_pos _)) (Nat.cast_nonneg n)
  rw [hlimit]
  -- The largest mantissa is odd, so an even one leaves a whole place up to the limit.
  by_cases heven : b.mantissa % 2 = 0
  · have hless : ((2 ^ 55 - 6 : Nat) : ℚ) * 2 ^ (969 : Int) <
        (2 ^ 55 - 2 : Nat) * 2 ^ (969 : Int) :=
      mul_lt_mul_of_pos_right (Nat.cast_lt.mpr (by decide)) (zpow_pos two_pos _)
    exact lt_of_le_of_lt (hle.trans (hupper (by omega))) hless
  · exact lt_of_lt_of_le (hodd heven) (hupper (by omega))

/-- The shortest decimal of a finite number is below the limit of the finite range. -/
theorem shortest_lt_limit (hbounded : b.Bounded) : (shortest b).value < Rounding.limit := by
  unfold shortest
  split
  · have hzero : (⟨0, 0⟩ : Decimal).value = 0 := by rw [value, Nat.cast_zero, zero_mul]
    rw [hzero]
    exact Nat.cast_pos.mpr (Nat.mul_pos (by decide) (pow_pos Nat.two_pos 970))
  · rename_i hmantissa
    obtain ⟨d, hd⟩ := exists_onGrid? hbounded (Nat.pos_of_ne_zero hmantissa)
    obtain ⟨k, -, hk⟩ := List.exists_of_findSome?_eq_some hd
    simp only [hd, Option.elim_some]
    rw [value_strip]
    exact lt_limit_of_readsBack hbounded (readsBack_of_onGrid? hk)

end Decimal

/-- What a format writes for a finite number is read as a finite number. -/
theorem NumberFormat.isFinite_floatNumber (format : NumberFormat) {x : Float}
    (hnan : x.isNaN = false) (hinf : x.isInf = false) :
    (format.floatNumber x).written.toFloat.isFinite = true := by
  have hlimit := Decimal.shortest_lt_limit (Binary.ofFloat_bounded hnan hinf)
  have hnonneg : 0 ≤ (Decimal.shortest (.ofFloat x)).value :=
    mul_nonneg (Nat.cast_nonneg _) (le_of_lt (zpow_pos (by norm_num) _))
  refine Decimal.Written.isFinite_toFloat ?_
  rw [floatNumber, value_number]
  split
  · rw [abs_neg, abs_of_nonneg hnonneg]
    exact hlimit
  · rw [abs_of_nonneg hnonneg]
    exact hlimit

end CollectorTemplate
