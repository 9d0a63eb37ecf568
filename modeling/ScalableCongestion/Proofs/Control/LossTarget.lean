import ScalableCongestion.Proofs.Binary64.Grain
import ScalableCongestion.Proofs.Binary64.Truncation
import ScalableCongestion.Proofs.Control.Prague

/-! What a loss during a reduction leaves of the window, in exact numbers. The
estimate scales the window by a factor between two and three quarters. Both ends
are grid points, and so are their products with a window, so no rounding leads
out of this range; and a fraction of a byte is all that rounding moves. -/
namespace ScalableCongestion
open Binary64

variable {a b : ℚ} {alpha beta : Float}

theorem denotes_two : Denotes 2.0 2 := by
  have h := Stands.finite .positive (m := 2 ^ 52) (e := -51) (by norm_num)
    ⟨by norm_num, by norm_num, .inl le_rfl⟩
  rw [signed, natCast_mul_two_pow] at h
  norm_num at h
  exact h

theorem denotes_four : Denotes 4.0 4 := by
  have h := Stands.finite .positive (m := 2 ^ 52) (e := -50) (by norm_num)
    ⟨by norm_num, by norm_num, .inl le_rfl⟩
  rw [signed, natCast_mul_two_pow] at h
  norm_num at h
  exact h

namespace Prague

/-- The factor of an estimate, every operation rounded to nearest. -/
def scaling (a : ℚ) : ℚ := nearest (nearest (2 + a) / 4)

def scaled (a : ℚ) (window : Nat) : ℚ := nearest (window * scaling a)

theorem scaling_mono (h : a ≤ b) : scaling a ≤ scaling b := by
  apply nearest_mono
  apply div_le_div_of_nonneg_right _ zero_le_four
  exact nearest_mono (add_le_add_right h 2)

theorem sum_bounds (ha : InUnit a) : 2 ≤ nearest (2 + a) ∧ nearest (2 + a) ≤ 3 := by
  have htwo : Representable 2 := representable_of_natCast_le (n := 2) (by norm_num)
  have hthree : Representable 3 := representable_of_natCast_le (n := 3) (by norm_num)
  exact ⟨le_nearest htwo (by linarith [ha.1]), nearest_le hthree (by linarith [ha.2])⟩

theorem scaling_bounds (ha : InUnit a) : 2 / 4 ≤ scaling a ∧ scaling a ≤ 3 / 4 := by
  obtain ⟨hlow, hhigh⟩ := sum_bounds ha
  have htwo : Representable (2 / 4) := representable_quarters (n := 2) (by norm_num)
  have hthree : Representable (3 / 4) := representable_quarters (n := 3) (by norm_num)
  exact ⟨le_nearest htwo (by linarith), nearest_le hthree (by linarith)⟩

theorem scaling_nonneg (ha : InUnit a) : 0 ≤ scaling a :=
  (div_nonneg zero_le_two zero_le_four).trans (scaling_bounds ha).1

theorem scaled_mono (ha : InUnit a) {m n : Nat} (hab : a ≤ b) (hmn : m ≤ n) :
    scaled a m ≤ scaled b n := by
  apply nearest_mono
  exact mul_le_mul (Nat.cast_le.mpr hmn) (scaling_mono hab) (scaling_nonneg ha) n.cast_nonneg

theorem scaled_bounds (ha : InUnit a) {n : Nat} (hn : n < 2 ^ 32) :
    ((2 * n : Nat) : ℚ) / 4 ≤ scaled a n ∧ scaled a n ≤ ((3 * n : Nat) : ℚ) / 4 := by
  obtain ⟨hlow, hhigh⟩ := scaling_bounds ha
  have hwindow : (0 : ℚ) ≤ n := n.cast_nonneg
  constructor
  · apply le_nearest (representable_quarters (by omega))
    calc ((2 * n : Nat) : ℚ) / 4 = n * (2 / 4) := by push_cast; ring
      _ ≤ n * scaling a := mul_le_mul_of_nonneg_left hlow hwindow
  · apply nearest_le (representable_quarters (by omega))
    calc n * scaling a ≤ n * (3 / 4) := mul_le_mul_of_nonneg_left hhigh hwindow
      _ = ((3 * n : Nat) : ℚ) / 4 := by push_cast; ring

theorem floor_scaled_bounds (ha : InUnit a) {n : Nat} (hn : n < 2 ^ 32) :
    n / 2 ≤ ⌊scaled a n⌋₊ ∧ ⌊scaled a n⌋₊ ≤ 3 * n / 4 := by
  have hquarter (m : Nat) : ⌊(m : ℚ) / 4⌋₊ = m / 4 := by
    rw [Nat.floor_div_ofNat, Nat.floor_natCast]
  obtain ⟨hlow, hhigh⟩ := scaled_bounds ha hn
  have hlow' := Nat.floor_mono hlow
  have hhigh' := Nat.floor_mono hhigh
  rw [hquarter] at hlow' hhigh'
  omega

theorem abs_scaling_sub_le (ha : InUnit a) : |scaling a - (2 + a) / 4| ≤ 2 ^ (-51 : ℤ) := by
  obtain ⟨hlow, hhigh⟩ := sum_bounds ha
  have hsum : |nearest (2 + a) - (2 + a)| ≤ 2 ^ (-52 : ℤ) * 3 := by
    apply abs_nearest_sub_le_of_le _ (by norm_num)
    rw [abs_of_nonneg] <;> linarith [ha.1, ha.2]
  have hquotient : |scaling a - nearest (2 + a) / 4| ≤ 2 ^ (-52 : ℤ) * 1 := by
    apply abs_nearest_sub_le_of_le _ le_rfl
    rw [abs_of_nonneg] <;> linarith
  have hquarter : |nearest (2 + a) / 4 - (2 + a) / 4| = |nearest (2 + a) - (2 + a)| / 4 := by
    rw [← sub_div, abs_div, abs_of_pos (zero_lt_four' ℚ)]
  have hpath := abs_sub_le (scaling a) (nearest (2 + a) / 4) ((2 + a) / 4)
  rw [hquarter] at hpath
  norm_num at hsum hquotient ⊢
  linarith

/-- All roundings together move the window by less than a byte. -/
theorem abs_scaled_sub_lt (ha : InUnit a) {n : Nat} (hn : n < 2 ^ 32) :
    |scaled a n - n * (2 + a) / 4| < 1 := by
  have hwindow : (0 : ℚ) ≤ n := n.cast_nonneg
  have hwindow' : (n : ℚ) ≤ 2 ^ 32 := by exact_mod_cast hn.le
  have hproduct : |scaled a n - n * scaling a| ≤ 2 ^ (-52 : ℤ) * 2 ^ 32 := by
    apply abs_nearest_sub_le_of_le _ (by norm_num)
    have hone : scaling a ≤ 1 := (scaling_bounds ha).2.trans (by norm_num)
    rw [abs_of_nonneg (mul_nonneg hwindow (scaling_nonneg ha))]
    exact (mul_le_of_le_one_right hwindow hone).trans hwindow'
  have hfactor : |n * scaling a - n * ((2 + a) / 4)| ≤ 2 ^ 32 * 2 ^ (-51 : ℤ) := by
    rw [← mul_sub, abs_mul, abs_of_nonneg hwindow]
    exact mul_le_mul hwindow' (abs_scaling_sub_le ha) (abs_nonneg _) (by norm_num)
  rw [mul_div_assoc]
  calc |scaled a n - n * ((2 + a) / 4)|
      ≤ |scaled a n - n * scaling a| + |n * scaling a - n * ((2 + a) / 4)| := abs_sub_le _ _ _
    _ ≤ 2 ^ (-52 : ℤ) * 2 ^ 32 + 2 ^ 32 * 2 ^ (-51 : ℤ) := add_le_add hproduct hfactor
    _ < 1 := by norm_num

/-- Dropped fractions can turn that into a byte, and no more. -/
theorem floor_scaled_near (ha : InUnit a) {n : Nat} (hn : n < 2 ^ 32) :
    ⌊scaled a n⌋₊ ≤ ⌊n * (2 + a) / 4⌋₊ + 1 ∧ ⌊n * (2 + a) / 4⌋₊ ≤ ⌊scaled a n⌋₊ + 1 := by
  have hnonneg : 0 ≤ n * (2 + a) / 4 :=
    div_nonneg (mul_nonneg n.cast_nonneg (add_nonneg zero_le_two ha.1)) zero_le_four
  have hnonneg' : 0 ≤ scaled a n :=
    (div_nonneg (Nat.cast_nonneg _) zero_le_four).trans (scaled_bounds ha hn).1
  obtain ⟨hbelow, habove⟩ := abs_lt.mp (abs_scaled_sub_lt ha hn)
  rw [← Nat.floor_add_one hnonneg, ← Nat.floor_add_one hnonneg']
  exact ⟨Nat.floor_mono (by linarith), Nat.floor_mono (by linarith)⟩

theorem denotes_lossFactor (h : Denotes alpha a) (ha : InUnit a) :
    Denotes (lossFactor alpha) (scaling a) := by
  have hsum : |2 + a| ≤ 2 ^ (1023 : ℤ) := by
    apply abs_le_of_le_two_pow <;> norm_num <;> linarith [ha.1, ha.2]
  obtain ⟨hlow, hhigh⟩ := sum_bounds ha
  apply denotes_div (denotes_add denotes_two h hsum) denotes_four four_ne_zero
  apply abs_le_of_le_two_pow
  · linarith
  · norm_num
    linarith

theorem toNat_lossTarget (h : Denotes alpha a) (ha : InUnit a) (cwnd : UInt32) :
    (lossTarget alpha cwnd).toNat = ⌊scaled a cwnd.toNat⌋₊ := by
  have hcwnd : cwnd.toNat < 2 ^ 32 := cwnd.toNat_lt
  have hproduct : |cwnd.toNat * scaling a| ≤ 2 ^ (1023 : ℤ) := by
    have hwindow : (cwnd.toNat : ℚ) ≤ 2 ^ 32 := by exact_mod_cast hcwnd.le
    obtain ⟨_, hhigh⟩ := scaling_bounds ha
    apply abs_le_of_le_two_pow (mul_nonneg cwnd.toNat.cast_nonneg (scaling_nonneg ha))
    calc cwnd.toNat * scaling a ≤ 2 ^ 32 * (3 / 4) :=
          mul_le_mul hwindow hhigh (scaling_nonneg ha) (by norm_num)
      _ ≤ 2 ^ 100 := by norm_num
  have hscaled : Denotes (cwnd.toFloat * lossFactor alpha) (scaled a cwnd.toNat) :=
    denotes_mul (denotes_toFloat cwnd) (denotes_lossFactor h ha) hproduct
  have hbounds := floor_scaled_bounds ha hcwnd
  rw [lossTarget, toNat_toUInt32 hscaled]
  exact Nat.min_eq_left (by omega)

theorem lossTarget_bounds (h : inUnit alpha = true) (cwnd : UInt32) :
    cwnd.toNat / 2 ≤ (lossTarget alpha cwnd).toNat ∧
      (lossTarget alpha cwnd).toNat ≤ 3 * cwnd.toNat / 4 := by
  obtain ⟨a, ha, ha'⟩ := inUnit_iff.mp h
  rw [toNat_lossTarget ha ha']
  exact floor_scaled_bounds ha' cwnd.toNat_lt

theorem lossTarget_mono (halpha : inUnit alpha = true) (hbeta : inUnit beta = true)
    (h : alpha ≤ beta) {cwnd cwnd' : UInt32} (hcwnd : cwnd ≤ cwnd') :
    lossTarget alpha cwnd ≤ lossTarget beta cwnd' := by
  obtain ⟨a, ha, ha'⟩ := inUnit_iff.mp halpha
  obtain ⟨b, hb, hb'⟩ := inUnit_iff.mp hbeta
  rw [UInt32.le_iff_toNat_le, toNat_lossTarget ha ha', toNat_lossTarget hb hb']
  apply Nat.floor_mono
  exact scaled_mono ha' ((le_iff ha hb).mp h) (UInt32.le_iff_toNat_le.mp hcwnd)

theorem lossWindow_le {p : Prague} (h : inUnit p.alpha = true) (c : Connection) :
    p.lossWindow c ≤ c.cwnd := by
  rw [UInt32.le_iff_toNat_le, lossWindow]
  split
  · have hbounds := lossTarget_bounds h c.cwnd
    omega
  · rw [UInt32.toNat_div]
    exact Nat.div_le_self _ _

end Prague

end ScalableCongestion
