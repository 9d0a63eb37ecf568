import ScalableCongestion.Proofs.Binary64.Unpacked

/-! How far several roundings lead from a number. One of them misses by at most a
grain, and a few, with quotients and products in between, by not many more. -/
namespace ScalableCongestion.Binary64

/-- Half a unit in the last place of a number of this size, or of the least double. -/
def grain (q : ℚ) : ℚ := 2 ^ (-53 : ℤ) * |q| + 2 ^ (-1075 : ℤ)

variable {p q a b : ℚ} {count more : Nat}

theorem two_pow_mul_abs_le_grain (q : ℚ) : 2 ^ (-53 : ℤ) * |q| ≤ grain q :=
  le_add_of_nonneg_right (two_pow_pos _).le

theorem least_le_grain (q : ℚ) : 2 ^ (-1075 : ℤ) ≤ grain q :=
  le_add_of_nonneg_left (mul_nonneg (two_pow_pos _).le (abs_nonneg q))

theorem grain_pos (q : ℚ) : 0 < grain q := (two_pow_pos _).trans_le (least_le_grain q)

theorem abs_nearest_sub_le_grain (q : ℚ) : |nearest q - q| ≤ grain q := by
  by_cases hq : q = 0
  · rw [hq, nearest_zero, sub_self, abs_zero]
    exact (grain_pos 0).le
  refine (abs_nearest_sub_le q).trans ?_
  rw [div_eq_mul_inv, mul_comm]
  rcases (le_unitExponent q).lt_or_eq with hlt | heq
  · have hscale : (2 : ℚ)⁻¹ * ulp q = 2 ^ (-53 : ℤ) * 2 ^ (unitExponent q + 52) := by
      rw [ulp, ← zpow_neg_one, ← zpow_add₀ two_ne_zero, ← zpow_add₀ two_ne_zero]
      congr 1
      omega
    rw [hscale]
    exact (mul_le_mul_of_nonneg_left (two_pow_le_abs hq hlt) (two_pow_pos _).le).trans
      (two_pow_mul_abs_le_grain q)
  · have hscale : (2 : ℚ)⁻¹ * ulp q = 2 ^ (-1075 : ℤ) := by
      rw [ulp, ← heq, ← zpow_neg_one, ← zpow_add₀ two_ne_zero]
      rfl
    rw [hscale]
    exact least_le_grain q

theorem abs_nearest_sub_le_of_le (h : |q| ≤ b) (hb : 1 ≤ b) :
    |nearest q - q| ≤ 2 ^ (-52 : ℤ) * b := by
  have hleast : (2 : ℚ) ^ (-1075 : ℤ) ≤ 2 ^ (-53 : ℤ) :=
    zpow_le_zpow_right₀ one_le_two (by norm_num)
  have hsize := mul_le_mul_of_nonneg_left h (two_pow_pos (-53)).le
  have hone := mul_le_mul_of_nonneg_left hb (two_pow_pos (-53)).le
  calc |nearest q - q| ≤ 2 ^ (-53 : ℤ) * |q| + 2 ^ (-1075 : ℤ) := abs_nearest_sub_le_grain q
    _ ≤ 2 ^ (-53 : ℤ) * b + 2 ^ (-53 : ℤ) * b := by linarith
    _ = 2 ^ (-52 : ℤ) * b := by norm_num; ring

theorem grain_le (p q : ℚ) : grain p ≤ grain q + 2 ^ (-53 : ℤ) * |p - q| := by
  have hsize : |p| ≤ |q| + |p - q| := by
    have := abs_sub_abs_le_abs_sub p q
    linarith
  have hscaled := mul_le_mul_of_nonneg_left hsize (two_pow_pos (-53)).le
  unfold grain
  linarith

/-- To miss a number by a count of its grains. -/
def Within (count : Nat) (p q : ℚ) : Prop := |p - q| ≤ count * grain q

theorem Within.mono (h : Within count p q) (hle : count ≤ more) : Within more p q :=
  h.trans (mul_le_mul_of_nonneg_right (Nat.cast_le.mpr hle) (grain_pos q).le)

theorem Within.neg (h : Within count p q) : Within count (-p) (-q) := by
  have hflip : -p - -q = -(p - q) := by ring
  rw [Within, grain, hflip, abs_neg, abs_neg]
  exact h

theorem count_mul_le (hcount : count ≤ 2 ^ 53) : 2 ^ (-53 : ℤ) * (count * grain q) ≤ grain q := by
  have hcount' : (count : ℚ) ≤ 2 ^ 53 := by exact_mod_cast hcount
  have hgrain := mul_le_mul_of_nonneg_right hcount' (grain_pos q).le
  have hscale : (2 : ℚ) ^ (-53 : ℤ) * 2 ^ 53 = 1 := by norm_num
  calc 2 ^ (-53 : ℤ) * (count * grain q) ≤ 2 ^ (-53 : ℤ) * (2 ^ 53 * grain q) :=
        mul_le_mul_of_nonneg_left hgrain (two_pow_pos _).le
    _ = grain q := by rw [← mul_assoc, hscale, one_mul]

theorem count_le_shrunk (hcount : count + 2 ≤ 2 ^ 53) :
    (count + 1 : ℚ) ≤ (count + 2) * (1 - 2 ^ (-53 : ℤ)) := by
  have hcount' : (count : ℚ) + 2 ≤ 2 ^ 53 := by exact_mod_cast hcount
  have hscaled := mul_le_mul_of_nonneg_left hcount' (two_pow_pos (-53)).le
  have hscale : (2 : ℚ) ^ (-53 : ℤ) * 2 ^ 53 = 1 := by norm_num
  linarith

theorem Within.nearest (h : Within count p q) (hcount : count ≤ 2 ^ 53) :
    Within (count + 2) (nearest p) q := by
  have hround := (abs_nearest_sub_le_grain p).trans (grain_le p q)
  have hmissed := mul_le_mul_of_nonneg_left h (two_pow_pos (-53)).le
  have hlittle := count_mul_le (q := q) hcount
  calc |Binary64.nearest p - q| ≤ |Binary64.nearest p - p| + |p - q| := abs_sub_le _ _ _
    _ ≤ 2 * grain q + count * grain q := by
        have h' : |p - q| ≤ count * grain q := h
        linarith
    _ = (count + 2 : Nat) * grain q := by
        push_cast
        ring

theorem grain_div_le (hb : 1 ≤ b) : grain q / b ≤ grain (q / b) := by
  have hpos : 0 < b := zero_lt_one.trans_le hb
  unfold grain
  rw [abs_div, abs_of_pos hpos, add_div, mul_div_assoc]
  have := div_le_self (two_pow_pos (-1075)).le hb
  linarith

theorem Within.div (h : Within count p q) (hb : 1 ≤ b) (hab : |a - b| ≤ 2 ^ (-53 : ℤ) * b)
    (hcount : count + 2 ≤ 2 ^ 53) : Within (count + 2) (p / a) (q / b) := by
  have hpos : 0 < b := zero_lt_one.trans_le hb
  have hone : (0 : ℚ) < 1 - 2 ^ (-53 : ℤ) := by norm_num
  have hlow : (1 - 2 ^ (-53 : ℤ)) * b ≤ a := by
    have := (abs_le.mp hab).1
    linarith
  have hapos : 0 < a := (mul_pos hone hpos).trans_le hlow
  -- both misses over one divisor, which is a little too small at worst
  have hsplit : p / a - q / b = ((p - q) + q / b * (b - a)) / a := by
    field_simp
    ring
  have hdivisor : |q / b * (b - a)| ≤ grain q := by
    rw [abs_mul, abs_div, abs_of_pos hpos, abs_sub_comm]
    calc |q| / b * |a - b| ≤ |q| / b * (2 ^ (-53 : ℤ) * b) := by gcongr
      _ = 2 ^ (-53 : ℤ) * |q| := by
          rw [mul_left_comm, div_mul_cancel₀ _ hpos.ne']
      _ ≤ grain q := two_pow_mul_abs_le_grain q
  have hnumerator : |(p - q) + q / b * (b - a)| ≤ (count + 1) * grain q := by
    have h' : |p - q| ≤ count * grain q := h
    have := abs_add_le (p - q) (q / b * (b - a))
    linarith
  have hgrain := (grain_pos q).le
  unfold Within
  rw [hsplit, abs_div, abs_of_pos hapos, div_le_iff₀ hapos]
  push_cast
  calc |(p - q) + q / b * (b - a)| ≤ (count + 1) * grain q := hnumerator
    _ ≤ (count + 2) * (1 - 2 ^ (-53 : ℤ)) * grain q :=
        mul_le_mul_of_nonneg_right (count_le_shrunk hcount) hgrain
    _ = (count + 2) * (grain q / b) * ((1 - 2 ^ (-53 : ℤ)) * b) := by field_simp
    _ ≤ (count + 2) * grain (q / b) * a := by
        have := grain_div_le (q := q) hb
        have := (grain_pos (q / b)).le
        gcongr

theorem within_mul (hq : 0 ≤ q) (hb : 0 ≤ b) (hpq : |p - q| ≤ 2 ^ (-53 : ℤ) * q)
    (hab : |a - b| ≤ 2 ^ (-53 : ℤ) * b) : Within 3 (p * a) (q * b) := by
  have hsplit : p * a - q * b = (p - q) * b + (q * (a - b) + (p - q) * (a - b)) := by ring
  have hsmall : (2 : ℚ) ^ (-53 : ℤ) ≤ 1 := by norm_num
  have hfirst : |(p - q) * b| ≤ 2 ^ (-53 : ℤ) * (q * b) := by
    rw [abs_mul, abs_of_nonneg hb, ← mul_assoc]
    gcongr
  have hsecond : |q * (a - b)| ≤ 2 ^ (-53 : ℤ) * (q * b) := by
    rw [abs_mul, abs_of_nonneg hq, mul_left_comm]
    gcongr
  have hboth : |(p - q) * (a - b)| ≤ 2 ^ (-53 : ℤ) * (q * b) := by
    rw [abs_mul]
    calc |p - q| * |a - b| ≤ 2 ^ (-53 : ℤ) * q * (1 * b) := by
          gcongr
          exact hab.trans (mul_le_mul_of_nonneg_right hsmall hb)
      _ = 2 ^ (-53 : ℤ) * (q * b) := by ring
  have hgrain := two_pow_mul_abs_le_grain (q * b)
  rw [abs_of_nonneg (mul_nonneg hq hb)] at hgrain
  unfold Within
  rw [hsplit]
  have := abs_add_le ((p - q) * b) (q * (a - b) + (p - q) * (a - b))
  have := abs_add_le (q * (a - b)) ((p - q) * (a - b))
  push_cast
  linarith

theorem Within.of_nearest (h : Within count p q) (hcount : count + 2 ≤ 2 ^ 53) :
    Within (count + 2) p (Binary64.nearest q) := by
  have hround := abs_nearest_sub_le_grain q
  have hgrain : (1 - 2 ^ (-53 : ℤ)) * grain q ≤ grain (Binary64.nearest q) := by
    have hback := grain_le q (Binary64.nearest q)
    rw [abs_sub_comm] at hback
    have := mul_le_mul_of_nonneg_left hround (two_pow_pos (-53)).le
    linarith
  have hboth := abs_sub_le p q (Binary64.nearest q)
  rw [abs_sub_comm q] at hboth
  unfold Within at h ⊢
  push_cast
  calc |p - Binary64.nearest q| ≤ (count + 1) * grain q := by linarith
    _ ≤ (count + 2) * (1 - 2 ^ (-53 : ℤ)) * grain q :=
        mul_le_mul_of_nonneg_right (count_le_shrunk hcount) (grain_pos q).le
    _ ≤ (count + 2) * grain (Binary64.nearest q) := by
        rw [mul_assoc]
        exact mul_le_mul_of_nonneg_left hgrain (by positivity)

end ScalableCongestion.Binary64
