import Mathlib

/-! Rounding to the grid of doubles, on rationals. A rational is measured in units
of the last place at its size, the count of units is rounded to the nearest
integer, the even one of two, and the result is the nearest grid point. Nothing
here bounds the exponent from above. -/
namespace ScalableCongestion.Binary64

def roundEven (q : ℚ) : ℤ :=
  if Int.fract q < 1 / 2 then ⌊q⌋
  else if 1 / 2 < Int.fract q then ⌊q⌋ + 1
  else ⌊q⌋ + ⌊q⌋ % 2

theorem abs_roundEven_sub_le (q : ℚ) : |(roundEven q : ℚ) - q| ≤ 1 / 2 := by
  have hfloor := Int.floor_add_fract q
  have hlow := Int.fract_nonneg q
  have hhigh := Int.fract_lt_one q
  unfold roundEven
  split
  · rw [abs_le]
    constructor <;> linarith
  · split
    · push_cast
      rw [abs_le]
      constructor <;> linarith
    · have hhalf : Int.fract q = 1 / 2 := by linarith
      rcases Int.emod_two_eq_zero_or_one ⌊q⌋ with hparity | hparity
      · rw [hparity, abs_le]
        push_cast
        constructor <;> linarith
      · rw [hparity, abs_le]
        push_cast
        constructor <;> linarith

theorem even_roundEven_of_half {q : ℚ} (h : |(roundEven q : ℚ) - q| = 1 / 2) :
    roundEven q % 2 = 0 := by
  have hfloor := Int.floor_add_fract q
  have hlow := Int.fract_nonneg q
  have hhigh := Int.fract_lt_one q
  unfold roundEven at h ⊢
  split at h
  · rename_i hbelow
    rw [abs_of_nonpos (by linarith)] at h
    linarith
  · split at h
    · push_cast at h
      rw [abs_of_nonneg (by linarith)] at h
      linarith
    · rename_i hbelow habove
      rw [if_neg hbelow, if_neg habove]
      omega

theorem eq_of_abs_sub_add_lt {q : ℚ} {m n : ℤ} (h : |(m : ℚ) - q| + |(n : ℚ) - q| < 1) :
    m = n := by
  have hapart : |((m - n : ℤ) : ℚ)| < 1 := by
    calc |((m - n : ℤ) : ℚ)| = |((m : ℚ) - q) - (n - q)| := by
          push_cast
          ring_nf
      _ ≤ |(m : ℚ) - q| + |(n : ℚ) - q| := abs_sub _ _
      _ < 1 := h
  have hsame : |m - n| < 1 := by exact_mod_cast hapart
  exact sub_eq_zero.mp (Int.abs_lt_one_iff.mp hsame)

theorem roundEven_eq_of_lt {q : ℚ} {n : ℤ} (h : |(n : ℚ) - q| < 1 / 2) : roundEven q = n := by
  have hround := abs_roundEven_sub_le q
  exact eq_of_abs_sub_add_lt (by linarith)

theorem roundEven_eq_of_half {q : ℚ} {n : ℤ} (h : |(n : ℚ) - q| = 1 / 2) (heven : n % 2 = 0) :
    roundEven q = n := by
  rcases (abs_roundEven_sub_le q).lt_or_eq with hlt | heq
  · exact eq_of_abs_sub_add_lt (by linarith)
  · -- both are nearest, so they are at most one apart, and both are even
    have hparity := even_roundEven_of_half heq
    have hround := abs_le.mp heq.le
    have hnear := abs_le.mp h.le
    have hbelow : (roundEven q : ℚ) ≤ n + 1 := by linarith [hround.2, hnear.1]
    have habove : (n : ℚ) ≤ roundEven q + 1 := by linarith [hround.1, hnear.2]
    have hbelow' : roundEven q ≤ n + 1 := by exact_mod_cast hbelow
    have habove' : n ≤ roundEven q + 1 := by exact_mod_cast habove
    omega

theorem roundEven_intCast (n : ℤ) : roundEven n = n :=
  roundEven_eq_of_lt (by norm_num)

theorem roundEven_neg (q : ℚ) : roundEven (-q) = -roundEven q := by
  have hdistance : |((-roundEven q : ℤ) : ℚ) - -q| = |(roundEven q : ℚ) - q| := by
    rw [← abs_neg]
    push_cast
    ring_nf
  rcases (abs_roundEven_sub_le q).lt_or_eq with hlt | heq
  · exact roundEven_eq_of_lt (hdistance ▸ hlt)
  · have hparity := even_roundEven_of_half heq
    exact roundEven_eq_of_half (hdistance.trans heq) (by omega)

theorem abs_roundEven_sub_le_abs_sub (q : ℚ) (n : ℤ) :
    |(roundEven q : ℚ) - q| ≤ |(n : ℚ) - q| := by
  have hle := abs_roundEven_sub_le q
  by_cases hnear : |(n : ℚ) - q| < 1 / 2
  · rw [roundEven_eq_of_lt hnear]
  · linarith

/-- The exponent of the unit in the last place at the size of a rational. -/
def unitExponent (q : ℚ) : ℤ := max (Int.log 2 |q| - 52) (-1074)

def ulp (q : ℚ) : ℚ := 2 ^ unitExponent q

def nearest (q : ℚ) : ℚ := roundEven (q / ulp q) * ulp q

/-- The grid: integers of 53 bits, scaled by powers of two from 2^-1074 on. -/
def Representable (q : ℚ) : Prop :=
  ∃ m e : ℤ, |m| ≤ 2 ^ 53 ∧ -1074 ≤ e ∧ q = m * 2 ^ e

theorem Representable.neg {q : ℚ} (h : Representable q) : Representable (-q) := by
  obtain ⟨m, e, hm, he, rfl⟩ := h
  exact ⟨-m, e, by rw [abs_neg]; exact hm, he, by rw [Int.cast_neg, neg_mul]⟩

theorem ulp_pos (q : ℚ) : 0 < ulp q := zpow_pos (by norm_num) _

theorem two_pow_mul_ulp (k : ℕ) (q : ℚ) : 2 ^ k * ulp q = 2 ^ (unitExponent q + k) := by
  rw [add_comm, zpow_add₀ two_ne_zero, zpow_natCast, ulp]

theorem le_unitExponent (q : ℚ) : -1074 ≤ unitExponent q := le_max_right _ _

theorem two_pow_le_abs {q : ℚ} (hq : q ≠ 0) (h : -1074 < unitExponent q) :
    2 ^ (unitExponent q + 52) ≤ |q| := by
  have hlog : unitExponent q + 52 = Int.log 2 |q| := by
    unfold unitExponent at h ⊢
    omega
  rw [hlog]
  exact_mod_cast Int.zpow_log_le_self (b := 2) (by norm_num) (abs_pos.mpr hq)

theorem abs_lt_two_pow (q : ℚ) : |q| < 2 ^ (unitExponent q + 53) := by
  have hlog : Int.log 2 |q| + 1 ≤ unitExponent q + 53 := by
    unfold unitExponent
    omega
  calc |q| < 2 ^ (Int.log 2 |q| + 1) := by
        exact_mod_cast Int.lt_zpow_succ_log_self (b := 2) (by norm_num) |q|
    _ ≤ 2 ^ (unitExponent q + 53) := zpow_le_zpow_right₀ (by norm_num) hlog

theorem unitExponent_eq {q : ℚ} {e : ℤ} (hq : q ≠ 0) (hmin : -1074 ≤ e)
    (hlow : 2 ^ (e + 52) ≤ |q| ∨ e = -1074) (hhigh : |q| < 2 ^ (e + 53)) :
    unitExponent q = e := by
  have hpos := abs_pos.mpr hq
  have hlog : Int.log 2 |q| < e + 53 := by
    apply (Int.lt_zpow_iff_log_lt (by norm_num) hpos).mp
    exact_mod_cast hhigh
  unfold unitExponent
  rcases hlow with hlow | rfl
  · have hlog' : e + 52 ≤ Int.log 2 |q| := by
      apply (Int.zpow_le_iff_le_log (by norm_num) hpos).mp
      exact_mod_cast hlow
    omega
  · omega

theorem nearest_zero : nearest 0 = 0 := by
  have hround : roundEven 0 = 0 := roundEven_intCast 0
  rw [nearest, zero_div, hround, Int.cast_zero, zero_mul]

theorem nearest_neg (q : ℚ) : nearest (-q) = -nearest q := by
  have hulp : ulp (-q) = ulp q := by rw [ulp, ulp, unitExponent, unitExponent, abs_neg]
  rw [nearest, nearest, hulp, neg_div, roundEven_neg]
  push_cast
  ring

theorem abs_mul_ulp_sub (n : ℤ) (q : ℚ) : |n * ulp q - q| = |n - q / ulp q| * ulp q := by
  have hpos := ulp_pos q
  have hscale : n * ulp q - q = (n - q / ulp q) * ulp q := by
    rw [sub_mul, div_mul_cancel₀ _ hpos.ne']
  rw [hscale, abs_mul, abs_of_pos hpos]

theorem abs_nearest_sub_le (q : ℚ) : |nearest q - q| ≤ ulp q / 2 := by
  have hround := abs_roundEven_sub_le (q / ulp q)
  rw [nearest, abs_mul_ulp_sub]
  calc |roundEven (q / ulp q) - q / ulp q| * ulp q ≤ 1 / 2 * ulp q :=
        mul_le_mul_of_nonneg_right hround (ulp_pos q).le
    _ = ulp q / 2 := by ring

theorem abs_nearest_sub_le_multiple (q : ℚ) (n : ℤ) :
    |nearest q - q| ≤ |n * ulp q - q| := by
  rw [nearest, abs_mul_ulp_sub, abs_mul_ulp_sub]
  exact mul_le_mul_of_nonneg_right (abs_roundEven_sub_le_abs_sub _ n) (ulp_pos q).le

/-- A grid point is a multiple of the unit or small against the rational. -/
theorem Representable.multiple_or_le {b : ℚ} (hb : Representable b) (q : ℚ) :
    (∃ n : ℤ, b = n * ulp q) ∨ -1074 < unitExponent q ∧ |b| ≤ 2 ^ (unitExponent q + 52) := by
  obtain ⟨m, e, hm, he, rfl⟩ := hb
  rcases le_or_gt (unitExponent q) e with hle | hlt
  · left
    refine ⟨m * 2 ^ (e - unitExponent q).toNat, ?_⟩
    have hexponent : ((e - unitExponent q).toNat : ℤ) + unitExponent q = e := by omega
    rw [ulp, ← hexponent, zpow_add₀ (by norm_num)]
    push_cast
    rw [hexponent, zpow_natCast, mul_assoc]
  · right
    refine ⟨by omega, ?_⟩
    have hm' : |(m : ℚ)| ≤ 2 ^ (53 : ℤ) := by exact_mod_cast hm
    have hpower : (0 : ℚ) < 2 ^ e := zpow_pos (by norm_num) e
    calc |(m : ℚ) * 2 ^ e| = |(m : ℚ)| * 2 ^ e := by rw [abs_mul, abs_of_pos hpower]
      _ ≤ 2 ^ (53 : ℤ) * 2 ^ e := mul_le_mul_of_nonneg_right hm' hpower.le
      _ = 2 ^ (53 + e) := (zpow_add₀ (by norm_num) _ _).symm
      _ ≤ 2 ^ (unitExponent q + 52) := zpow_le_zpow_right₀ (by norm_num) (by omega)

theorem Representable.exists_multiple {b : ℚ} (hb : Representable b) (q : ℚ) :
    ∃ n : ℤ, |n * ulp q - q| ≤ |b - q| := by
  rcases hb.multiple_or_le q with ⟨n, rfl⟩ | ⟨hunit, hsmall⟩
  · exact ⟨n, le_rfl⟩
  by_cases hq : q = 0
  · rw [hq]
    refine ⟨0, ?_⟩
    rw [Int.cast_zero, zero_mul, sub_self, abs_zero]
    exact abs_nonneg _
  -- the least number of the same size lies between the point and the rational
  have hlarge := two_pow_le_abs hq hunit
  have hbounds := abs_le.mp hsmall
  have hscale : ((2 ^ 52 : ℤ) : ℚ) * ulp q = 2 ^ (unitExponent q + 52) := by
    rw [Int.cast_pow, Int.cast_ofNat]
    exact two_pow_mul_ulp 52 q
  rcases lt_or_ge q 0 with hneg | hnonneg
  · refine ⟨-(2 ^ 52), ?_⟩
    rw [abs_of_neg hneg] at hlarge
    rw [Int.cast_neg, neg_mul, hscale, abs_of_nonneg (by linarith), abs_of_nonneg (by linarith)]
    linarith
  · refine ⟨2 ^ 52, ?_⟩
    rw [abs_of_nonneg hnonneg] at hlarge
    rw [hscale, abs_of_nonpos (by linarith), abs_of_nonpos (by linarith)]
    linarith

theorem abs_nearest_sub_le_abs_sub {b : ℚ} (hb : Representable b) (q : ℚ) :
    |nearest q - q| ≤ |b - q| := by
  obtain ⟨n, hn⟩ := hb.exists_multiple q
  exact (abs_nearest_sub_le_multiple q n).trans hn

theorem representable_nearest (q : ℚ) : Representable (nearest q) := by
  refine ⟨roundEven (q / ulp q), unitExponent q, ?_, le_unitExponent q, rfl⟩
  have hpos := ulp_pos q
  have hsize : |q / ulp q| < 2 ^ 53 := by
    rw [abs_div, abs_of_pos hpos, div_lt_iff₀ hpos, two_pow_mul_ulp]
    exact abs_lt_two_pow q
  have hround := abs_roundEven_sub_le (q / ulp q)
  have hsize' := abs_lt.mp hsize
  have hround' := abs_le.mp hround
  have hlow : (-(2 ^ 53) - 1 : ℚ) < roundEven (q / ulp q) := by linarith
  have hhigh : (roundEven (q / ulp q) : ℚ) < 2 ^ 53 + 1 := by linarith
  have hlow' : (-(2 ^ 53) - 1 : ℤ) < roundEven (q / ulp q) := by exact_mod_cast hlow
  have hhigh' : roundEven (q / ulp q) < 2 ^ 53 + 1 := by exact_mod_cast hhigh
  rw [abs_le]
  omega

theorem nearest_of_representable {q : ℚ} (h : Representable q) : nearest q = q := by
  have hle := abs_nearest_sub_le_abs_sub h q
  rw [sub_self, abs_zero] at hle
  exact sub_eq_zero.mp (abs_nonpos_iff.mp hle)

theorem add_le_two_mul_of_abs_sub_le {a b x : ℚ} (hab : a < b) (h : |b - x| ≤ |a - x|) :
    a + b ≤ 2 * x := by
  have hsquares := sq_le_sq.mpr h
  by_contra hbelow
  have hproduct : 0 < (b - a) * (a + b - 2 * x) := mul_pos (by linarith) (by linarith)
  linarith

theorem nearest_mono {x y : ℚ} (h : x ≤ y) : nearest x ≤ nearest y := by
  by_contra hswapped
  have hlt : nearest y < nearest x := not_le.mp hswapped
  have hx := abs_nearest_sub_le_abs_sub (representable_nearest y) x
  have hy := abs_nearest_sub_le_abs_sub (representable_nearest x) y
  have habove := add_le_two_mul_of_abs_sub_le hlt hx
  have hbelow := add_le_two_mul_of_abs_sub_le (neg_lt_neg hlt) (x := -y) (by
    rw [neg_sub_neg, neg_sub_neg, abs_sub_comm y, abs_sub_comm y]
    exact hy)
  -- both lie in the middle of the two results, which makes them one
  have hsame : x = y := by linarith
  rw [hsame] at hswapped
  exact hswapped le_rfl

theorem nearest_le {x b : ℚ} (hb : Representable b) (h : x ≤ b) : nearest x ≤ b :=
  (nearest_mono h).trans_eq (nearest_of_representable hb)

theorem le_nearest {x b : ℚ} (hb : Representable b) (h : b ≤ x) : b ≤ nearest x :=
  (nearest_of_representable hb).symm.trans_le (nearest_mono h)

end ScalableCongestion.Binary64
