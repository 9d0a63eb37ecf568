import ScalableCongestion.Proofs.Binary64.Grain

/-! How far grid points are apart. A rational near a grid point is rounded to it,
one that is past the middle to the next is rounded further, and rounding changes
little. -/
namespace ScalableCongestion.Binary64

theorem le_unitExponent_of_le {b : ℚ} {j : ℤ} (h : 2 ^ j ≤ |b|) : j - 52 ≤ unitExponent b := by
  have hpos : 0 < |b| := (two_pow_pos j).trans_le h
  have hlog : j ≤ Int.log 2 |b| := by
    apply (Int.zpow_le_iff_le_log (by norm_num) hpos).mp
    exact_mod_cast h
  unfold unitExponent
  omega

theorem exists_multiple {b : ℚ} (hb : Representable b) {e : ℤ} (he : e ≤ unitExponent b) :
    ∃ n : ℤ, b = n * 2 ^ e := by
  obtain ⟨k, hk⟩ := Int.eq_ofNat_of_zero_le (sub_nonneg.mpr he)
  have hexponent : unitExponent b = k + e := by omega
  refine ⟨roundEven (b / ulp b) * 2 ^ k, ?_⟩
  calc b = nearest b := (nearest_of_representable hb).symm
    _ = roundEven (b / ulp b) * 2 ^ (k + e) := by rw [← hexponent, nearest, ulp]
    _ = (roundEven (b / ulp b) * 2 ^ k : ℤ) * 2 ^ e := by
        rw [zpow_add₀ two_ne_zero, zpow_natCast, ← mul_assoc]
        push_cast
        rfl

theorem unit_le_abs_sub {m n : ℤ} (h : m ≠ n) (e : ℤ) :
    (2 : ℚ) ^ e ≤ |(m : ℚ) * 2 ^ e - n * 2 ^ e| := by
  have hone : 1 ≤ |m - n| := Int.one_le_abs (sub_ne_zero.mpr h)
  have hone' : (1 : ℚ) ≤ |(m : ℚ) - n| := by exact_mod_cast hone
  rw [← sub_mul, abs_mul, abs_of_pos (two_pow_pos e)]
  exact le_mul_of_one_le_left (two_pow_pos e).le hone'

theorem least_le_abs {b : ℚ} (hb : Representable b) (hne : b ≠ 0) : 2 ^ (-1074 : ℤ) ≤ |b| := by
  obtain ⟨n, hn⟩ := exists_multiple hb (le_unitExponent b)
  have hcount : n ≠ 0 := by
    rintro rfl
    exact hne (by rw [hn, Int.cast_zero, zero_mul])
  have hunit := unit_le_abs_sub hcount (-1074)
  rw [Int.cast_zero, zero_mul, sub_zero, ← hn] at hunit
  exact hunit

/-- A double whose size is at least `2 ^ j` keeps its distance from all others. -/
theorem two_pow_le_abs_sub {a b : ℚ} (ha : Representable a) (hb : Representable b) (hne : a ≠ b)
    {j : ℤ} (hj : 2 ^ j ≤ |b|) : 2 ^ (j - 53) ≤ |a - b| := by
  rcases le_or_gt (2 ^ (j - 1)) |a| with hlarge | hsmall
  · have hunit := le_unitExponent_of_le hlarge
    have hunit' := le_unitExponent_of_le hj
    obtain ⟨m, rfl⟩ := exists_multiple ha (e := j - 53) (by omega)
    obtain ⟨n, rfl⟩ := exists_multiple hb (e := j - 53) (by omega)
    apply unit_le_abs_sub
    rintro rfl
    exact hne rfl
  · have hhalf : (2 : ℚ) ^ (j - 1) * 2 = 2 ^ j := by
      rw [← zpow_add_one₀ two_ne_zero, sub_add_cancel]
    have hfar := abs_sub_abs_le_abs_sub b a
    rw [abs_sub_comm] at hfar
    calc (2 : ℚ) ^ (j - 53) ≤ 2 ^ (j - 1) := zpow_le_zpow_right₀ one_le_two (by omega)
      _ ≤ |a - b| := by linarith

theorem nearest_eq_of_close {p q : ℚ} (hq : Representable q) {j : ℤ} (hj : 2 ^ j ≤ |q|)
    (hclose : |p - q| < 2 ^ (j - 54)) : nearest p = q := by
  by_contra hne
  have hapart := two_pow_le_abs_sub (representable_nearest p) hq hne hj
  have hnear := abs_nearest_sub_le_abs_sub hq p
  have htriangle := abs_sub_le (nearest p) p q
  have hdouble : (2 : ℚ) ^ (j - 54) * 2 = 2 ^ (j - 53) := by
    rw [← zpow_add_one₀ two_ne_zero]
    congr 1
    omega
  rw [abs_sub_comm q p] at hnear
  linarith

/-! ## The next grid point -/

theorem exists_count {a : ℚ} (ha : Representable a) (hpos : 0 < a) :
    ∃ n : ℤ, 0 < n ∧ n + 1 ≤ 2 ^ 53 ∧ a = n * ulp a := by
  obtain ⟨n, hn⟩ := exists_multiple ha le_rfl
  change a = n * ulp a at hn
  have hunit := ulp_pos a
  have hsize := abs_lt_two_pow a
  have hscale := two_pow_mul_ulp 53 a
  rw [abs_of_pos hpos] at hsize
  have hlow : (0 : ℚ) < n := pos_of_mul_pos_left (hn ▸ hpos) hunit.le
  have hhigh : (n : ℚ) < 2 ^ 53 := by
    apply lt_of_mul_lt_mul_right _ hunit.le
    rw [← hn, hscale]
    exact_mod_cast hsize
  have hhigh' : n < 2 ^ 53 := by exact_mod_cast hhigh
  exact ⟨n, by exact_mod_cast hlow, hhigh', hn⟩

theorem two_pow_mul_ulp_le {q : ℚ} (h : 1 ≤ q) : 2 ^ 52 * ulp q ≤ q := by
  have hpos : 0 < q := zero_lt_one.trans_le h
  have hone : 2 ^ (0 : ℤ) ≤ |q| := by
    rw [zpow_zero, abs_of_pos hpos]
    exact h
  have hunit := le_unitExponent_of_le hone
  have hle := two_pow_le_abs hpos.ne' (by omega)
  rw [abs_of_pos hpos] at hle
  rw [two_pow_mul_ulp]
  exact_mod_cast hle

theorem abs_nearest_sub_le_part {q : ℚ} (h : 1 ≤ q) : |nearest q - q| ≤ 2 ^ (-53 : ℤ) * q := by
  have hulp := two_pow_mul_ulp_le h
  have hscale : (2 : ℚ) ^ (-53 : ℤ) * (2 ^ 52 * ulp q) = ulp q / 2 := by
    rw [← mul_assoc, div_eq_inv_mul]
    norm_num
  calc |nearest q - q| ≤ ulp q / 2 := abs_nearest_sub_le q
    _ = 2 ^ (-53 : ℤ) * (2 ^ 52 * ulp q) := hscale.symm
    _ ≤ 2 ^ (-53 : ℤ) * q := mul_le_mul_of_nonneg_left hulp (two_pow_pos _).le

theorem lt_two_pow_mul_ulp {q : ℚ} (h : 0 < q) : q < 2 ^ 53 * ulp q := by
  have hlt := abs_lt_two_pow q
  rw [abs_of_pos h] at hlt
  rw [two_pow_mul_ulp]
  exact_mod_cast hlt

theorem unitExponent_before_next {a q : ℚ} (ha : Representable a) (hpos : 0 < a) (hlow : a ≤ q)
    (hhigh : q < a + ulp a) : unitExponent q = unitExponent a := by
  obtain ⟨n, _, hcount, hvalue⟩ := exists_count ha hpos
  have hq : 0 < q := hpos.trans_le hlow
  have hcount' : (n : ℚ) + 1 ≤ 2 ^ 53 := by exact_mod_cast hcount
  apply unitExponent_eq hq.ne' (le_unitExponent a)
  · rcases (le_unitExponent a).lt_or_eq with hlt | heq
    · have hle := two_pow_le_abs hpos.ne' hlt
      rw [abs_of_pos hpos] at hle
      rw [abs_of_pos hq]
      exact .inl (hle.trans hlow)
    · exact .inr heq.symm
  · rw [abs_of_pos hq]
    calc q < a + ulp a := hhigh
      _ = (n + 1) * ulp a := by rw [add_mul, one_mul, ← hvalue]
      _ ≤ 2 ^ 53 * ulp a := mul_le_mul_of_nonneg_right hcount' (ulp_pos a).le
      _ = 2 ^ (unitExponent a + 53) := by exact_mod_cast two_pow_mul_ulp 53 a

/-- What lies beyond the middle to the next grid point is rounded at least there. -/
theorem add_ulp_le_nearest {a q : ℚ} (ha : Representable a) (hpos : 0 < a)
    (h : a + ulp a / 2 < q) : a + ulp a ≤ nearest q := by
  obtain ⟨n, hn, hcount, hvalue⟩ := exists_count ha hpos
  have hunit := ulp_pos a
  have hnext : a + ulp a = (n + 1 : ℤ) * ulp a := by
    push_cast
    rw [add_mul, one_mul, ← hvalue]
  rcases le_or_gt (a + ulp a) q with hbeyond | hbefore
  · refine le_nearest ⟨n + 1, unitExponent a, ?_, le_unitExponent a, hnext⟩ hbeyond
    rw [abs_of_pos (by omega)]
    exact hcount
  · have hulp : ulp q = ulp a := by
      rw [ulp, ulp, unitExponent_before_next ha hpos (by linarith) hbefore]
    -- in units of the grid point, the next one is less than a half away
    have hround : roundEven (q / ulp a) = n + 1 := by
      apply roundEven_eq_of_lt
      have hlower : (n : ℚ) + 1 / 2 < q / ulp a := by
        rw [lt_div_iff₀ hunit, add_mul, ← hvalue]
        linarith
      have hupper : q / ulp a < n + 1 := by
        rw [div_lt_iff₀ hunit, add_mul, ← hvalue]
        linarith
      push_cast
      rw [abs_lt]
      constructor <;> linarith
    rw [nearest, hulp, hround, hnext]

theorem nearest_pos {q : ℚ} (h : 2 ^ (-1075 : ℤ) < q) : 0 < nearest q := by
  have hleast : Representable (2 ^ (-1074 : ℤ)) := representable_two_pow le_rfl
  have hhalf : (2 : ℚ) ^ (-1075 : ℤ) * 2 = 2 ^ (-1074 : ℤ) := (zpow_add_one₀ two_ne_zero _).symm
  have hpos := two_pow_pos (-1075)
  rcases le_or_gt (2 ^ (-1074 : ℤ)) q with hlarge | hsmall
  · exact (two_pow_pos _).trans_le (le_nearest hleast hlarge)
  · by_contra hzero
    have hnear := abs_nearest_sub_le_abs_sub hleast q
    rw [abs_of_nonpos (by linarith), abs_of_pos (by linarith)] at hnear
    linarith

theorem nearest_bounds {q : ℚ} (h : 2 ^ (-1070 : ℤ) ≤ q) :
    9 / 10 * q ≤ nearest q ∧ nearest q ≤ 11 / 10 * q := by
  have hpos : 0 < q := (two_pow_pos _).trans_le h
  have hgrain : grain q ≤ 1 / 10 * q := by
    have hscale : (2 : ℚ) ^ (-1075 : ℤ) * 2 ^ (5 : ℤ) = 2 ^ (-1070 : ℤ) :=
      (zpow_add₀ two_ne_zero _ _).symm
    have hsmall : (2 : ℚ) ^ (-53 : ℤ) * q ≤ 1 / 32 * q :=
      mul_le_mul_of_nonneg_right (by norm_num) hpos.le
    rw [grain, abs_of_pos hpos]
    linarith
  have hnear := abs_le.mp ((abs_nearest_sub_le_grain q).trans hgrain)
  constructor <;> linarith

end ScalableCongestion.Binary64
