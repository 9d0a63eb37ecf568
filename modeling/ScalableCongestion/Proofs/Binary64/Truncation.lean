import ScalableCongestion.Proofs.Binary64.Arithmetic
import ScalableCongestion.Proofs.Binary64.Grain

/-! From doubles back to counts. The conversion drops the fraction and stops at
the ends of the range, so a double becomes the floor of its rational. The floor
of a quotient of counts survives its rounding. -/
namespace ScalableCongestion
open Float.Model Float.Model.UnpackedFloat

namespace Binary64

theorem roundToInt_eq (s : Sign) (m : Nat) (e : ℤ) :
    roundToInt s m e = s.apply ⌊(m : ℚ) * 2 ^ e⌋ := by
  have hvalue := decreaseExponent_mul m e 0
  have hexponent : (decreaseExponent m e 0).2 ≤ 0 := by
    simp only [decreaseExponent]
    omega
  -- shifted to the exponent zero, the mantissa is the floor
  have hshift := (extends_exact (decreaseExponent m e 0).1).shiftRight
    (0 - (decreaseExponent m e 0).2).toNat
  have hpower : (2 : ℚ) ^ (decreaseExponent m e 0).2 =
      (2 ^ (0 - (decreaseExponent m e 0).2).toNat)⁻¹ := by
    rw [← zpow_natCast, ← zpow_neg]
    congr 1
    omega
  rw [← hvalue, hpower, ← div_eq_mul_inv, hshift.floor_eq]
  rfl

theorem toNat_toInt {u : UnpackedFloat} {q : ℚ} (h : Stands u q) (low high : ℤ) :
    (u.toInt low high).toNat = ⌊q⌋₊ := by
  cases h with
  | zero s => rw [toInt, Int.toNat_zero, Nat.floor_zero]
  | @finite s m e hm _ =>
      have hnonneg : (0 : ℚ) ≤ m * 2 ^ e := mul_nonneg m.cast_nonneg (two_pow_pos e).le
      rw [toInt, roundToInt_eq]
      cases s with
      | positive => exact Int.floor_toNat _
      | negative =>
          have hfloor := Int.floor_nonneg.mpr hnonneg
          rw [signed, Nat.floor_of_nonpos (neg_nonpos.mpr hnonneg)]
          exact Int.toNat_of_nonpos (neg_nonpos.mpr hfloor)

end Binary64

open Binary64

theorem toNat_ofNatClamp (n : Nat) : (UInt32.ofNatClamp n).toNat = min n 4294967295 := by
  unfold UInt32.ofNatClamp
  split
  · next hfits =>
      rw [UInt32.toNat_ofNatLT]
      exact (Nat.min_eq_left (Nat.le_pred_of_lt hfits)).symm
  · next hlarge => exact (Nat.min_eq_right (Nat.le_of_lt (Nat.not_lt.mp hlarge))).symm

theorem toNat_toUInt32 {x : Float} {q : ℚ} (h : Denotes x q) :
    x.toUInt32.toNat = min ⌊q⌋₊ 4294967295 := by
  change (UInt32.ofNatClamp (x.toModel.unpack.toInt 0 _).toNat).toNat = _
  rw [toNat_ofNatClamp, toNat_toInt h]

variable {n m : Nat}

theorem nearest_div_mul_lt (hn : n < 2 ^ 53) (hm : 0 < m) (hm' : m < 2 ^ 53) :
    nearest (n / m) * m < n + 1 := by
  have hpos : (0 : ℚ) < m := by exact_mod_cast hm
  have hsize : |(n / m : ℚ)| * m = n := by
    rw [abs_of_nonneg (div_nonneg n.cast_nonneg hpos.le), div_mul_cancel₀ _ hpos.ne']
  have hround := (abs_le.mp (abs_nearest_sub_le_grain (n / m : ℚ))).2
  have hscaled := mul_le_mul_of_nonneg_right hround hpos.le
  rw [sub_mul, div_mul_cancel₀ _ hpos.ne', grain, add_mul, mul_assoc, hsize] at hscaled
  have hcount : (n : ℚ) + 1 ≤ 2 ^ 53 := by exact_mod_cast Nat.succ_le_of_lt hn
  have hdivisor : (m : ℚ) ≤ 2 ^ 53 := by exact_mod_cast hm'.le
  have hpart : (2 : ℚ) ^ (-53 : ℤ) * n ≤ 2 ^ (-53 : ℤ) * (2 ^ 53 - 1) :=
    mul_le_mul_of_nonneg_left (by linarith) (two_pow_pos _).le
  have hleast : (2 : ℚ) ^ (-1075 : ℤ) * m ≤ 2 ^ (-107 : ℤ) * 2 ^ 53 :=
    mul_le_mul (zpow_le_zpow_right₀ one_le_two (by norm_num)) hdivisor hpos.le (two_pow_pos _).le
  have hless : (2 : ℚ) ^ (-53 : ℤ) * (2 ^ 53 - 1) + 2 ^ (-107 : ℤ) * 2 ^ 53 < 1 := by norm_num
  calc nearest (n / m) * m ≤ n + (2 ^ (-53 : ℤ) * n + 2 ^ (-1075 : ℤ) * m) :=
        sub_le_iff_le_add'.mp hscaled
    _ ≤ n + (2 ^ (-53 : ℤ) * (2 ^ 53 - 1) + 2 ^ (-107 : ℤ) * 2 ^ 53) :=
        add_le_add_right (add_le_add hpart hleast) _
    _ < n + 1 := add_lt_add_right hless _

/-- Rounding never lifts a quotient of counts to the next integer, since it stays
below that by at least one part of the divisor. -/
theorem floor_nearest_div (hn : n < 2 ^ 53) (hm : 0 < m) (hm' : m < 2 ^ 53) :
    ⌊nearest (n / m)⌋₊ = n / m := by
  have hpos : (0 : ℚ) < m := by exact_mod_cast hm
  have hbelow : ((n / m : Nat) : ℚ) ≤ nearest (n / m) :=
    le_nearest (representable_of_natCast_le ((Nat.div_le_self n m).trans hn.le)) Nat.cast_div_le
  have hgap : (n : ℚ) + 1 ≤ ((n / m : Nat) + 1) * m := by
    have hnext : n + 1 ≤ (n / m + 1) * m := by
      rw [Nat.add_one_mul]
      exact Nat.lt_div_mul_add hm
    exact_mod_cast hnext
  have habove : nearest (n / m) * m < ((n / m : Nat) + 1) * m :=
    (nearest_div_mul_lt hn hm hm').trans_le hgap
  rw [Nat.floor_eq_iff ((Nat.cast_nonneg _).trans hbelow)]
  exact ⟨hbelow, lt_of_mul_lt_mul_right habove hpos.le⟩

end ScalableCongestion
