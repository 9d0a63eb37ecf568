import ScalableCongestion.Proofs.Json.Reread

/-! Where a finite double has been written, one near it is read. For the two largest
this is seen from their digits, since a bound on the roundings allows a product that
is out of range. -/
namespace ScalableCongestion
open Binary64 Decimal

namespace Json

variable {x y : Float} {q : ℚ} {n k : Nat}

/-! ## Powers of ten -/

theorem one_le_power (k : Nat) : (1 : ℚ) ≤ 10 ^ k := one_le_pow₀ (by norm_num)

theorem within_nearest_natCast (n : Nat) : Within 1 (nearest n) n := by
  rw [Within, Nat.cast_one, one_mul]
  exact abs_nearest_sub_le_grain n

theorem within_div_power {count : Nat} {p q : ℚ} (h : Within count p q)
    (hcount : count + 4 ≤ 2 ^ 53) (k : Nat) :
    Within (count + 4) (nearest (p / nearest (10 ^ k))) (q / 10 ^ k) := by
  apply Within.nearest
  · exact h.div (one_le_power k) (abs_nearest_sub_le_part (one_le_power k)) (by omega)
  · omega

theorem within_scaleDown (hn : n < 2 ^ 64) (k : Nat) :
    ∃ r, Denotes (scaleDown (Float.ofNat n) k) r ∧ Within 9 r (n / 10 ^ k) := by
  have hdigits := within_nearest_natCast n
  by_cases hlow : k ≤ maxPower
  · refine ⟨_, denotes_scaleDown hn hlow, ?_⟩
    exact (within_div_power hdigits (by norm_num) k).mono (by norm_num)
  by_cases hhigh : k ≤ 2 * maxPower
  · refine ⟨_, denotes_scaleDown_twice hn hlow hhigh, ?_⟩
    have hsplit : maxPower + (k - maxPower) = k := by omega
    have hsplit' : (n : ℚ) / 10 ^ k = n / 10 ^ maxPower / 10 ^ (k - maxPower) := by
      rw [div_div, ← pow_add, hsplit]
    rw [hsplit']
    exact within_div_power (within_div_power hdigits (by norm_num) _) (by norm_num) _
  · rw [scaleDown, if_neg hlow, if_neg hhigh]
    have hnothing : (n : ℚ) / 10 ^ k ≤ 2 ^ (-1075 : ℤ) := by
      have := vanishing hn hhigh
      rwa [zpow_neg, zpow_natCast, ← div_eq_mul_inv] at this
    have hsize : |0 - (n : ℚ) / 10 ^ k| ≤ (1 : Nat) * grain (n / 10 ^ k) := by
      rw [zero_sub, abs_neg, abs_of_nonneg (by positivity), Nat.cast_one, one_mul]
      exact hnothing.trans (least_le_grain _)
    exact ⟨0, denotes_zero, Within.mono hsize (by norm_num)⟩

theorem within_scaleUp? (hn : n < 2 ^ 64) (hpos : 0 < n)
    (hy : scaleUp? (Float.ofNat n) k = some y) :
    ∃ r, Denotes y r ∧ Within 9 r (n * 10 ^ k : Nat) := by
  refine ⟨_, denotes_scaleUp? hn hpos hy, ?_⟩
  have hdigits : |nearest n - n| ≤ 2 ^ (-53 : ℤ) * (n : ℚ) :=
    abs_nearest_sub_le_part (Nat.one_le_cast.mpr hpos)
  have hproduct := within_mul n.cast_nonneg (zero_le_one.trans (one_le_power k)) hdigits
    (abs_nearest_sub_le_part (one_le_power k))
  push_cast
  exact (hproduct.nearest (by norm_num)).mono (by norm_num)

theorem within_scale? {e : ℤ} (hn : n < 2 ^ 64) (hpos : 0 < n)
    (hy : scale? (Float.ofNat n) e = some y) :
    ∃ r, Denotes y r ∧ Within 9 r (Numeral.value ⟨n, e⟩) := by
  cases e with
  | ofNat k =>
      rw [value_ofNat]
      exact within_scaleUp? hn hpos hy
  | negSucc k =>
      cases Option.some.inj hy
      rw [value_negSucc]
      exact within_scaleDown hn (k + 1)

theorem reread?_near (hx : Denotes x q) (hy : reread? x = some y) :
    ∃ r, Denotes y r ∧ Within 11 r q := by
  by_cases hq : q = 0
  · subst hq
    rw [reread?_zero hx] at hy
    cases Option.some.inj hy
    refine ⟨0, hx, ?_⟩
    rw [Within, sub_self, abs_zero]
    exact mul_nonneg (Nat.cast_nonneg _) (grain_pos 0).le
  obtain ⟨n, _, hcoefficient, hnearest, hreread⟩ := exists_digits hx hq
  rw [hreread] at hy
  obtain ⟨z, hscale, rfl⟩ := Option.map_eq_some_iff.mp hy
  have hpos := coefficient_pos_of_nearest hnearest (abs_pos.mpr hq).ne'
  obtain ⟨r, hz, hwithin⟩ := within_scale? hcoefficient hpos hscale
  have hnear : Within 11 r |q| := hnearest ▸ hwithin.of_nearest (by norm_num)
  rcases lt_or_ge q 0 with hneg | hnonneg
  · refine ⟨-r, ?_, ?_⟩
    · rw [if_pos hneg]
      exact hz.neg
    · have hback := hnear.neg
      rwa [abs_of_neg hneg, neg_neg] at hback
  · refine ⟨r, ?_, ?_⟩
    · rw [if_neg (not_lt.mpr hnonneg)]
      exact hz
    · rwa [abs_of_nonneg hnonneg] at hnear

/-! ## The range -/

def topUnit : ℚ := 2 ^ (971 : ℤ)

theorem topUnit_pos : 0 < topUnit := two_pow_pos _

theorem two_pow_mul_topUnit (k : Nat) : 2 ^ k * topUnit = 2 ^ (k + 971 : ℤ) := by
  rw [topUnit, ← zpow_natCast, ← zpow_add₀ two_ne_zero]

theorem ulp_le_topUnit (hpos : 0 < q) (h : q < 2 ^ 53 * topUnit) : ulp q ≤ topUnit := by
  rw [two_pow_mul_topUnit] at h
  apply zpow_le_zpow_right₀ one_le_two
  rcases (le_unitExponent q).lt_or_eq with hlt | heq
  · have hsize := two_pow_le_abs hpos.ne' hlt
    rw [abs_of_pos hpos] at hsize
    have hexponent := (zpow_lt_zpow_iff_right₀ one_lt_two).mp (hsize.trans_lt h)
    omega
  · omega

theorem nearest_lt_top (hpos : 0 < q) (h : q < (2 ^ 53 - 1 / 2) * topUnit) :
    nearest q < 2 ^ (1024 : ℤ) := by
  have hulp := ulp_le_topUnit hpos (by linarith [topUnit_pos])
  have hround := (abs_le.mp (abs_nearest_sub_le q)).2
  calc nearest q < 2 ^ 53 * topUnit := by linarith
    _ = 2 ^ (1024 : ℤ) := two_pow_mul_topUnit 53

theorem le_maxPower (hpos : 0 < n) (h : (n * 10 ^ k : ℚ) < 2 ^ 53 * topUnit) : k ≤ maxPower := by
  by_contra hlarge
  have hmax : 2 ^ 1024 ≤ 10 ^ 309 := by decide +kernel
  have hrange : 2 ^ 53 * topUnit ≤ n * 10 ^ k := by
    rw [two_pow_mul_topUnit]
    calc (2 : ℚ) ^ (1024 : ℤ) ≤ 10 ^ 309 := by exact_mod_cast hmax
      _ ≤ 10 ^ k := pow_le_pow_right₀ (by norm_num) (not_le.mp hlarge)
      _ ≤ n * 10 ^ k := le_mul_of_one_le_left (by positivity) (Nat.one_le_cast.mpr hpos)
  exact absurd h (not_lt.mpr hrange)

theorem product_lt_top (hpos : 0 < n) (h : (n * 10 ^ k : ℚ) ≤ (2 ^ 53 - 5 / 2) * topUnit) :
    nearest n * nearest (10 ^ k) < (2 ^ 53 - 1 / 2) * topUnit := by
  have hdigits := (abs_le.mp (abs_nearest_sub_le_part (Nat.one_le_cast (α := ℚ).mpr hpos))).2
  have hpower := (abs_le.mp (abs_nearest_sub_le_part (one_le_power k))).2
  calc nearest n * nearest (10 ^ k)
      ≤ (1 + 2 ^ (-53 : ℤ)) * n * ((1 + 2 ^ (-53 : ℤ)) * 10 ^ k) :=
        mul_le_mul (by linarith) (by linarith) (zero_le_one.trans (one_le_nearest_power k))
          (by positivity)
    _ = (1 + 2 ^ (-53 : ℤ)) ^ 2 * (n * 10 ^ k) := by ring
    _ ≤ (1 + 2 ^ (-53 : ℤ)) ^ 2 * ((2 ^ 53 - 5 / 2) * topUnit) := by gcongr
    _ < (2 ^ 53 - 1 / 2) * topUnit := by
        rw [← mul_assoc]
        exact mul_lt_mul_of_pos_right (by norm_num) topUnit_pos

theorem scaleUp?_isSome (hn : n < 2 ^ 64) (hpos : 0 < n)
    (h : (n * 10 ^ k : ℚ) ≤ (2 ^ 53 - 5 / 2) * topUnit) :
    (scaleUp? (Float.ofNat n) k).isSome = true := by
  have hk : k ≤ maxPower := le_maxPower hpos (by linarith [topUnit_pos])
  have hproduct : 0 < nearest n * nearest (10 ^ k) :=
    mul_pos (zero_lt_one.trans_le (one_le_nearest_natCast hpos))
      (zero_lt_one.trans_le (one_le_nearest_power k))
  have hnonneg := le_nearest representable_zero hproduct.le
  have hrange := nearest_lt_top hproduct (product_lt_top hpos h)
  have hdenotes : Denotes (Float.ofNat n * powerOfTen k) _ :=
    denotes_of_stands (mul_nearest (denotes_ofNat hn) (denotes_powerOfTen hk))
      (by rw [abs_of_nonneg hnonneg]; exact hrange)
  rw [scaleUp?, if_pos hk]
  dsimp only
  rw [hdenotes.isInf_eq_false, if_neg Bool.false_ne_true]
  rfl

def largest : Float := Float.ofBits 0x7fefffffffffffff

def secondLargest : Float := Float.ofBits 0x7feffffffffffffe

theorem denotes_largest : Denotes largest ((2 ^ 53 - 1 : Nat) * topUnit) := by
  have h := Stands.finite .positive (m := 2 ^ 53 - 1) (e := 971) (by norm_num)
    ⟨by norm_num, by norm_num, .inl (by norm_num)⟩
  rw [signed] at h
  exact h

theorem denotes_secondLargest : Denotes secondLargest ((2 ^ 53 - 2 : Nat) * topUnit) := by
  have h := Stands.finite .positive (m := 2 ^ 53 - 2) (e := 971) (by norm_num)
    ⟨by norm_num, by norm_num, .inl (by norm_num)⟩
  rw [signed] at h
  exact h

theorem reread?_largest : (reread? largest).isSome = true := by decide +kernel

theorem reread?_secondLargest : (reread? secondLargest).isSome = true := by decide +kernel

theorem eq_largest (hx : Denotes x q) (h : (2 ^ 53 - 3) * topUnit < q) :
    x = largest ∨ x = secondLargest := by
  have hunit := topUnit_pos
  have hpos : 0 < q := (mul_pos (by norm_num) hunit).trans h
  have hrange : q < 2 ^ 53 * topUnit := by
    have := hx.abs_lt
    rw [abs_of_pos hpos] at this
    rw [two_pow_mul_topUnit]
    exact this
  have hhalf : 2 ^ 52 * topUnit ≤ q := by linarith
  have hlow : 2 ^ (1023 : ℤ) ≤ |q| := by
    have hscale : 2 ^ 52 * topUnit = 2 ^ (1023 : ℤ) := two_pow_mul_topUnit 52
    rw [abs_of_pos hpos, ← hscale]
    exact hhalf
  obtain ⟨m, hm⟩ :=
    exists_multiple hx.representable (show 971 ≤ unitExponent q from le_unitExponent_of_le hlow)
  change q = m * topUnit at hm
  subst hm
  have hlow' : ((2 ^ 53 - 3 : ℤ) : ℚ) < m := by
    exact_mod_cast lt_of_mul_lt_mul_right h hunit.le
  have hhigh : (m : ℚ) < (2 ^ 53 : ℤ) := by
    exact_mod_cast lt_of_mul_lt_mul_right hrange hunit.le
  have hlow'' : 2 ^ 53 - 3 < m := Int.cast_lt.mp hlow'
  have hhigh' : m < 2 ^ 53 := Int.cast_lt.mp hhigh
  have hcases : m = (2 ^ 53 - 1 : Nat) ∨ m = (2 ^ 53 - 2 : Nat) := by omega
  rcases hcases with rfl | rfl
  · exact .inl (hx.eq denotes_largest hpos.ne')
  · exact .inr (hx.eq denotes_secondLargest hpos.ne')

theorem reread?_isSome_of_pos (hx : Denotes x q) (hq : 0 < q) : (reread? x).isSome = true := by
  rcases lt_or_ge ((2 ^ 53 - 3) * topUnit) q with hlarge | hsmall
  · rcases eq_largest hx hlarge with rfl | rfl
    · exact reread?_largest
    · exact reread?_secondLargest
  obtain ⟨⟨n, e⟩, _, hcoefficient, hnearest, hreread⟩ := exists_digits hx hq.ne'
  rw [hreread, Option.isSome_map]
  have hpos := coefficient_pos_of_nearest hnearest (abs_pos.mpr hq.ne').ne'
  cases e with
  | negSucc k => rfl
  | ofNat k =>
      apply scaleUp?_isSome hcoefficient hpos
      have hvalue : (n * 10 ^ k : ℚ) = Numeral.value ⟨n, .ofNat k⟩ := by
        rw [value_ofNat]
        push_cast
        rfl
      rw [hvalue]
      -- beyond the middle to the next double the digits would not denote this one
      by_contra hbeyond
      have hunit := topUnit_pos
      have hulp := ulp_le_topUnit hq (by linarith)
      have hround := add_ulp_le_nearest hx.representable hq (q := Numeral.value ⟨n, .ofNat k⟩)
        (by linarith)
      rw [hnearest, abs_of_pos hq] at hround
      linarith [ulp_pos q]

theorem numeral_layNumeral (layout : Layout) (negative : Bool) (n : Numeral) :
    (layNumeral layout negative n).numeral = (layNumeral layout false n).numeral := by
  unfold layNumeral layPositional layScientific
  dsimp only
  split
  · split
    · rfl
    · split <;> rfl
  · rfl

theorem reread?_isSome_abs (hx : Denotes x q) (hq : q ≠ 0) :
    (reread? x).isSome = (reread? x.abs).isSome := by
  obtain ⟨m, hm, _, _, hreread⟩ := exists_digits hx hq
  obtain ⟨n, hn, _, _, hreread'⟩ := exists_digits hx.abs (abs_pos.mpr hq).ne'
  have habs := abs_pos.mpr hq
  have htwice : x.abs.abs = x.abs :=
    hx.abs.abs.eq (by rw [abs_abs]; exact hx.abs) (abs_pos.mpr habs.ne').ne'
  have hsame : m = n := by
    rw [hm, hn, lay, lay, if_neg (mt hx.mantissa_eq_zero_iff.mp hq),
      if_neg (mt hx.abs.mantissa_eq_zero_iff.mp habs.ne'), htwice, numeral_layNumeral]
    exact (numeral_layNumeral _ _ _).symm
  rw [hreread, hreread', hsame, Option.isSome_map, Option.isSome_map]

/-- A finite double that has been written is in range. -/
theorem exists_reread? (hx : x.isFinite = true) : ∃ y, reread? x = some y := by
  obtain ⟨q, hq⟩ := isFinite_iff.mp hx
  by_cases hzero : q = 0
  · subst hzero
    exact ⟨x, reread?_zero hq⟩
  · apply Option.isSome_iff_exists.mp
    rw [reread?_isSome_abs hq hzero]
    exact reread?_isSome_of_pos hq.abs (abs_pos.mpr hzero)

end Json

end ScalableCongestion
