import ScalableCongestion.Proofs.Decimal.Layout

/-! What reading makes of a double that has been written. Digits that fit 64 bits
are all taken, so there are two roundings, one of the digits and one of their
quotient or product with a power of ten. They may miss the double by a little, but
they never leave the unit interval and never enter it. -/
namespace ScalableCongestion
open Binary64 Decimal

namespace Json

/-- The double that is read where a finite one has been written, if it is in range. -/
def reread? (x : Float) : Option Float := realOf? (lay .document x)

/-! ## Digits -/

theorem le_ofDigitChars (cs : List Char) (n : Nat) : n ≤ Nat.ofDigitChars 10 cs n := by
  induction cs generalizing n with
  | nil => exact Nat.ofDigitChars_nil.ge
  | cons c cs ih =>
      rw [Nat.ofDigitChars_cons]
      exact le_trans (by omega) (ih _)

theorem absorb_eq {cs : List Char} {n : Nat} (h : Nat.ofDigitChars 10 cs n < significandBound) :
    absorb n cs = (Nat.ofDigitChars 10 cs n, []) := by
  induction cs generalizing n with
  | nil => rw [absorb, Nat.ofDigitChars_nil]
  | cons c cs ih =>
      rw [Nat.ofDigitChars_cons] at h ⊢
      have hnext : n * 10 + (c.toNat - '0'.toNat) = 10 * n + (c.toNat - '0'.toNat) := by omega
      rw [absorb, hnext, if_pos ((le_ofDigitChars cs _).trans_lt h), ih h]

theorem realOf?_eq {l : Literal} (h : l.numeral.coefficient < 2 ^ 64) :
    realOf? l = (scale? (Float.ofNat l.numeral.coefficient) l.numeral.exponent).map fun x =>
      if l.negative then -x else x := by
  have hall : Nat.ofDigitChars 10 l.fraction (Nat.ofDigitChars 10 l.whole 0) <
      significandBound := by
    rw [← Nat.ofDigitChars_append]
    exact h
  have hwhole := (le_ofDigitChars l.fraction _).trans_lt hall
  have hnumeral : l.numeral = ⟨Nat.ofDigitChars 10 l.fraction (Nat.ofDigitChars 10 l.whole 0),
      l.exponentValue - l.fraction.length⟩ := by
    rw [Literal.numeral, natOfDigits, Nat.ofDigitChars_append]
  rw [realOf?, absorb_eq hwhole]
  dsimp only
  rw [absorb_eq hall, hnumeral]
  dsimp only [List.length_nil]
  rw [Nat.cast_zero, add_zero, sub_zero]

/-! ## Powers of ten -/

theorem denotes_ofNat {n : Nat} (h : n < 2 ^ 64) : Denotes (Float.ofNat n) (nearest n) := by
  have hrounded := rounded_ofScientific n false (Nat.zero_le (2 ^ 11))
  rw [if_neg Bool.false_ne_true, Nat.cast_zero, zpow_zero, mul_one] at hrounded
  have hsmall : (n : ℚ) ≤ 2 ^ 100 := by
    calc (n : ℚ) ≤ (2 ^ 64 : Nat) := Nat.cast_le.mpr h.le
      _ ≤ 2 ^ 100 := by norm_num
  exact hrounded.denotes (abs_nearest_lt (abs_le_of_le_two_pow n.cast_nonneg hsmall))

theorem representable_large : Representable (2 ^ 100) := by
  exact_mod_cast representable_two_pow (k := 100) (by norm_num)

theorem natCast_nearest_nonneg (n : Nat) : 0 ≤ nearest n :=
  le_nearest representable_zero n.cast_nonneg

theorem natCast_nearest_le {n : Nat} (h : n < 2 ^ 64) : nearest n ≤ 2 ^ 100 := by
  apply nearest_le representable_large
  calc (n : ℚ) ≤ (2 ^ 64 : Nat) := Nat.cast_le.mpr h.le
    _ ≤ 2 ^ 100 := by norm_num

theorem one_le_nearest_natCast {n : Nat} (h : 0 < n) : 1 ≤ nearest n :=
  le_nearest representable_one (Nat.one_le_cast.mpr h)

theorem one_le_nearest_power (k : Nat) : 1 ≤ nearest (10 ^ k) := by
  exact_mod_cast one_le_nearest_natCast (Nat.pow_pos (n := k) (show 0 < 10 by norm_num))

theorem nearest_power_lt {k : Nat} (h : k ≤ maxPower) : nearest (10 ^ k) < 2 ^ (1024 : ℤ) := by
  have hlarge : Representable (3 * 2 ^ (1022 : ℤ)) :=
    ⟨3, 1022, by norm_num, by norm_num, by norm_num⟩
  have hmax : 10 ^ 308 ≤ 3 * 2 ^ 1022 := by decide +kernel
  have hpower : (10 : ℚ) ^ k ≤ 3 * 2 ^ (1022 : ℤ) := by
    calc (10 : ℚ) ^ k ≤ 10 ^ 308 := pow_le_pow_right₀ (by norm_num) h
      _ ≤ 3 * 2 ^ (1022 : ℤ) := by exact_mod_cast hmax
  have hfour : (4 : ℚ) * 2 ^ (1022 : ℤ) = 2 ^ (1024 : ℤ) := by
    rw [show (4 : ℚ) = 2 ^ (2 : ℤ) by norm_num, ← zpow_add₀ two_ne_zero]
    rfl
  calc nearest (10 ^ k) ≤ 3 * 2 ^ (1022 : ℤ) := nearest_le hlarge hpower
    _ < 4 * 2 ^ (1022 : ℤ) := mul_lt_mul_of_pos_right (by norm_num) (two_pow_pos _)
    _ = 2 ^ (1024 : ℤ) := hfour

theorem denotes_powerOfTen {k : Nat} (h : k ≤ maxPower) :
    Denotes (powerOfTen k) (nearest (10 ^ k)) := by
  have hrounded := rounded_ofScientific 1 false (k := k) (h.trans (by decide))
  rw [if_neg Bool.false_ne_true, Nat.cast_one, one_mul, zpow_natCast] at hrounded
  apply hrounded.denotes
  rw [abs_of_pos (zero_lt_one.trans_le (one_le_nearest_power k))]
  exact nearest_power_lt h

theorem nearest_power_eq {k : Nat} (h : k ≤ 22) : nearest (10 ^ k) = 10 ^ k :=
  nearest_of_representable (representable_ten_pow h)

/-! ## Scaling down -/

variable {x y : Float} {p q : ℚ}

theorem div_nearest_power_le (hp : 0 ≤ p) (k : Nat) : p / nearest (10 ^ k) ≤ p :=
  div_le_self hp (one_le_nearest_power k)

theorem denotes_div_powerOfTen (hx : Denotes x p) (hp : 0 ≤ p) (hsmall : p ≤ 2 ^ 100) {k : Nat}
    (hk : k ≤ maxPower) : Denotes (x / powerOfTen k) (nearest (p / nearest (10 ^ k))) := by
  have hpower := one_le_nearest_power k
  apply denotes_div hx (denotes_powerOfTen hk) (by linarith)
  exact abs_le_of_le_two_pow (div_nonneg hp (by linarith))
    ((div_nearest_power_le hp k).trans hsmall)

theorem denotes_scaleDown {n k : Nat} (hn : n < 2 ^ 64) (hk : k ≤ maxPower) :
    Denotes (scaleDown (Float.ofNat n) k) (nearest (nearest n / nearest (10 ^ k))) := by
  rw [scaleDown, if_pos hk]
  exact denotes_div_powerOfTen (denotes_ofNat hn) (natCast_nearest_nonneg n)
    (natCast_nearest_le hn) hk

theorem quotient_nearest_nonneg (hp : 0 ≤ p) (k : Nat) : 0 ≤ nearest (p / nearest (10 ^ k)) :=
  le_nearest representable_zero (div_nonneg hp (zero_le_one.trans (one_le_nearest_power k)))

theorem denotes_scaleDown_twice {n k : Nat} (hn : n < 2 ^ 64) (hlow : ¬k ≤ maxPower)
    (hhigh : k ≤ 2 * maxPower) :
    Denotes (scaleDown (Float.ofNat n) k)
      (nearest (nearest (nearest n / nearest (10 ^ maxPower)) /
        nearest (10 ^ (k - maxPower)))) := by
  have hnonneg := natCast_nearest_nonneg n
  have hle := natCast_nearest_le hn
  rw [scaleDown, if_neg hlow, if_pos hhigh]
  apply denotes_div_powerOfTen (denotes_div_powerOfTen (denotes_ofNat hn) hnonneg hle le_rfl)
  · exact quotient_nearest_nonneg hnonneg _
  · exact nearest_le representable_large ((div_nearest_power_le hnonneg _).trans hle)
  · omega

theorem inUnit_quotient {k : Nat} (hp : 0 ≤ p) (h : p ≤ nearest (10 ^ k)) :
    InUnit (nearest (p / nearest (10 ^ k))) := by
  have hpower : 0 < nearest (10 ^ k) := zero_lt_one.trans_le (one_le_nearest_power k)
  apply InUnit.nearest
  exact ⟨div_nonneg hp hpower.le, (div_le_one hpower).mpr h⟩

theorem scaleDown_inUnit {n k : Nat} (hn : n < 2 ^ 64) (h : n ≤ 10 ^ k) :
    ∃ r, Denotes (scaleDown (Float.ofNat n) k) r ∧ InUnit r := by
  have hnonneg := natCast_nearest_nonneg n
  by_cases hlow : k ≤ maxPower
  · refine ⟨_, denotes_scaleDown hn hlow, inUnit_quotient hnonneg (nearest_mono ?_)⟩
    exact_mod_cast h
  by_cases hhigh : k ≤ 2 * maxPower
  · have hle : nearest n ≤ nearest (10 ^ maxPower) := by
      apply nearest_mono
      calc (n : ℚ) ≤ (2 ^ 64 : Nat) := Nat.cast_le.mpr hn.le
        _ ≤ 10 ^ 20 := by norm_num
        _ ≤ 10 ^ maxPower := pow_le_pow_right₀ (by norm_num) (by decide)
    have hfirst := inUnit_quotient hnonneg hle
    exact ⟨_, denotes_scaleDown_twice hn hlow hhigh,
      inUnit_quotient hfirst.1 (hfirst.2.trans (one_le_nearest_power _))⟩
  · rw [scaleDown, if_neg hlow, if_neg hhigh]
    exact ⟨0, denotes_zero, le_rfl, zero_le_one⟩

theorem one_lt_scaleDown {n k : Nat} (hn : n < 2 ^ 64)
    (h : (1 + 2 ^ (-53 : ℤ)) * 10 ^ k < (n : ℚ)) :
    ∃ r, Denotes (scaleDown (Float.ofNat n) k) r ∧ 1 < r := by
  have hpower : (1 : ℚ) ≤ 10 ^ k := one_le_pow₀ (by norm_num)
  have hsmall : k ≤ 22 := by
    by_contra hlarge
    have hpower' : (10 : ℚ) ^ k < 2 ^ 64 := by
      calc (10 : ℚ) ^ k ≤ (1 + 2 ^ (-53 : ℤ)) * 10 ^ k :=
            le_mul_of_one_le_left (zero_le_one.trans hpower) (by norm_num)
        _ < n := h
        _ ≤ (2 ^ 64 : Nat) := Nat.cast_le.mpr hn.le
        _ = 2 ^ 64 := by norm_num
    have hlarge' : (10 : ℚ) ^ 23 ≤ 10 ^ k := pow_le_pow_right₀ (by norm_num) (by omega)
    linarith
  refine ⟨_, denotes_scaleDown hn (hsmall.trans (by decide)), ?_⟩
  have hhalf : (2 : ℚ) ^ (-53 : ℤ) = 1 / 2 ^ 53 := by norm_num
  have hcoarse := two_pow_mul_ulp_le hpower
  have hfine := lt_two_pow_mul_ulp (zero_lt_one.trans_le hpower)
  rw [hhalf] at h
  -- the digits are rounded at least to the double that follows the power
  have hdigits : 10 ^ k + ulp (10 ^ k) ≤ nearest n :=
    add_ulp_le_nearest (representable_ten_pow hsmall) (by linarith) (by linarith)
  have hquotient : 1 + ulp 1 / 2 < nearest n / 10 ^ k := by
    have hone : ulp 1 ≤ 1 / 2 ^ 52 := by
      have := two_pow_mul_ulp_le le_rfl
      linarith
    rw [lt_div_iff₀ (by linarith)]
    nlinarith
  rw [nearest_power_eq hsmall]
  have hbeyond := add_ulp_le_nearest representable_one zero_lt_one hquotient
  linarith [ulp_pos 1]

theorem least_le_quotient {n k : Nat} (hpos : 0 < n) (hk : k ≤ maxPower) :
    2 ^ (-1024 : ℤ) ≤ nearest n / nearest (10 ^ k) := by
  rw [le_div_iff₀ (zero_lt_one.trans_le (one_le_nearest_power k)), zpow_neg,
    inv_mul_le_iff₀ (two_pow_pos _)]
  calc nearest (10 ^ k) ≤ 2 ^ (1024 : ℤ) := (nearest_power_lt hk).le
    _ ≤ 2 ^ (1024 : ℤ) * nearest n :=
        le_mul_of_one_le_right (two_pow_pos _).le (one_le_nearest_natCast hpos)

theorem least_lt_quotient_twice {n i k : Nat} (hpos : 0 < n) (hk : k ≤ maxPower)
    (h : 2 ^ (-1074 : ℤ) * (10 ^ k * 10 ^ i) < (n : ℚ)) :
    2 ^ (-1075 : ℤ) < nearest (nearest n / nearest (10 ^ k)) / nearest (10 ^ i) := by
  have hhalf : (2 : ℚ) ^ (-1075 : ℤ) * 2 = 2 ^ (-1074 : ℤ) := (zpow_add_one₀ two_ne_zero _).symm
  have hleast (j : Nat) : (2 : ℚ) ^ (-1070 : ℤ) ≤ 10 ^ j :=
    (zpow_le_one_of_nonpos₀ one_le_two (by norm_num)).trans (one_le_pow₀ (by norm_num))
  have hdigits : 9 / 10 * (n : ℚ) ≤ nearest n :=
    (nearest_bounds ((hleast 0).trans (by exact_mod_cast hpos))).1
  have hpower := (nearest_bounds (hleast k)).2
  have hpower' := (nearest_bounds (hleast i)).2
  have hone := one_le_nearest_power k
  have hone' := one_le_nearest_power i
  have hquotient : 9 / 10 * (nearest n / nearest (10 ^ k)) ≤
      nearest (nearest n / nearest (10 ^ k)) :=
    (nearest_bounds ((zpow_le_zpow_right₀ one_le_two (by norm_num)).trans
      (least_le_quotient hpos hk))).1
  have hproduct : 2 ^ (-1075 : ℤ) * nearest (10 ^ i) * nearest (10 ^ k) < 9 / 10 * nearest n := by
    calc 2 ^ (-1075 : ℤ) * nearest (10 ^ i) * nearest (10 ^ k)
        ≤ 2 ^ (-1075 : ℤ) * (11 / 10 * 10 ^ i) * (11 / 10 * 10 ^ k) := by gcongr
      _ = 121 / 200 * (2 ^ (-1074 : ℤ) * (10 ^ k * 10 ^ i)) := by
          rw [← hhalf]
          ring
      _ < 121 / 200 * n := by gcongr
      _ ≤ 9 / 10 * nearest n := by linarith [n.cast_nonneg (α := ℚ)]
  rw [lt_div_iff₀ (by linarith)]
  refine lt_of_lt_of_le ?_ hquotient
  rw [← mul_div_assoc, lt_div_iff₀ (by linarith)]
  exact hproduct

theorem vanishing {n k : Nat} (hn : n < 2 ^ 64) (hk : ¬k ≤ 2 * maxPower) :
    (n : ℚ) * 10 ^ (-k : ℤ) ≤ 2 ^ (-1075 : ℤ) := by
  calc (n : ℚ) * 10 ^ (-k : ℤ) ≤ (2 ^ 64 : Nat) * 2 ^ (3 * (-k : ℤ)) :=
        mul_le_mul (Nat.cast_le.mpr hn.le) (ten_zpow_le (by omega)) (by positivity) (by positivity)
    _ = 2 ^ (3 * (-k : ℤ) + (64 : Nat)) := natCast_mul_two_pow 64 _
    _ ≤ 2 ^ (-1075 : ℤ) := by
        apply zpow_le_zpow_right₀ one_le_two
        unfold maxPower at hk
        omega

/-- A quotient above the least double does not vanish, not even in two steps. -/
theorem scaleDown_pos {n k : Nat} (hn : n < 2 ^ 64)
    (h : 2 ^ (-1074 : ℤ) < (n : ℚ) * 10 ^ (-k : ℤ)) :
    ∃ r, Denotes (scaleDown (Float.ofNat n) k) r ∧ 0 < r := by
  have hpos : 0 < n := by
    apply Nat.pos_of_ne_zero
    rintro rfl
    rw [Nat.cast_zero, zero_mul] at h
    exact absurd h (not_lt.mpr (two_pow_pos _).le)
  by_cases hlow : k ≤ maxPower
  · have hleast : (2 : ℚ) ^ (-1075 : ℤ) < 2 ^ (-1024 : ℤ) :=
      zpow_lt_zpow_right₀ one_lt_two (by norm_num)
    exact ⟨_, denotes_scaleDown hn hlow,
      nearest_pos (hleast.trans_le (least_le_quotient hpos hlow))⟩
  by_cases hhigh : k ≤ 2 * maxPower
  · refine ⟨_, denotes_scaleDown_twice hn hlow hhigh,
      nearest_pos (least_lt_quotient_twice hpos le_rfl ?_)⟩
    have hsplit : maxPower + (k - maxPower) = k := by omega
    have hvalue : (n : ℚ) * 10 ^ (-k : ℤ) = n / 10 ^ k := by
      rw [zpow_neg, zpow_natCast, div_eq_mul_inv]
    rw [hvalue, lt_div_iff₀ (by positivity)] at h
    rw [← pow_add, hsplit]
    exact h
  · have hleast : (2 : ℚ) ^ (-1075 : ℤ) ≤ 2 ^ (-1074 : ℤ) :=
      zpow_le_zpow_right₀ one_le_two (by norm_num)
    exact absurd h (not_lt.mpr ((vanishing hn hhigh).trans hleast))

/-! ## Scaling up -/

theorem denotes_scaleUp? {n k : Nat} (hn : n < 2 ^ 64) (hpos : 0 < n)
    (h : scaleUp? (Float.ofNat n) k = some y) :
    Denotes y (nearest (nearest n * nearest (10 ^ k))) := by
  have hdigits := denotes_ofNat hn
  unfold scaleUp? at h
  split at h
  · next hk =>
      dsimp only at h
      split at h
      · cases h
      · next hfinite =>
          cases Option.some.inj h
          exact denotes_mul_of_finite hdigits (denotes_powerOfTen hk) (Bool.not_eq_true _ ▸ hfinite)
  · have hzero : ¬(Float.ofNat n == 0.0) = true := by
      rw [beq_iff hdigits denotes_zero]
      exact (zero_lt_one.trans_le (one_le_nearest_natCast hpos)).ne'
    rw [if_neg hzero] at h
    cases h

/-! ## Digits and their exponent -/

theorem value_ofNat (n k : Nat) : Numeral.value ⟨n, .ofNat k⟩ = (n * 10 ^ k : Nat) := by
  rw [Numeral.value]
  push_cast
  rfl

theorem value_negSucc (n k : Nat) : Numeral.value ⟨n, .negSucc k⟩ = n / 10 ^ (k + 1) := by
  rw [Numeral.value, zpow_negSucc, div_eq_mul_inv]

theorem coefficient_pos_of_value {n : Nat} {e : ℤ} (h : 0 < Numeral.value ⟨n, e⟩) : 0 < n := by
  apply Nat.pos_of_ne_zero
  rintro rfl
  rw [Numeral.value, Nat.cast_zero, zero_mul] at h
  exact lt_irrefl 0 h

theorem le_nearest_natCast {m n : Nat} (hm : m ≤ 2 ^ 53) (h : m ≤ n) : (m : ℚ) ≤ nearest n :=
  le_nearest (representable_of_natCast_le hm) (Nat.cast_le.mpr h)

theorem scale?_inUnit {n : Nat} {e : ℤ} (hn : n < 2 ^ 64) (hpos : 0 < n)
    (h : Numeral.value ⟨n, e⟩ < 1) :
    ∃ y r, scale? (Float.ofNat n) e = some y ∧ Denotes y r ∧ InUnit r := by
  cases e with
  | ofNat k =>
      rw [value_ofNat] at h
      have hone : 1 ≤ n * 10 ^ k := Nat.mul_pos hpos (Nat.pow_pos (by norm_num))
      exact absurd h (not_lt.mpr (Nat.one_le_cast.mpr hone))
  | negSucc k =>
      rw [value_negSucc, div_lt_one (by positivity)] at h
      have hle : n ≤ 10 ^ (k + 1) := by exact_mod_cast h.le
      obtain ⟨r, hr, hunit⟩ := scaleDown_inUnit hn hle
      exact ⟨_, r, rfl, hr, hunit⟩

theorem one_lt_scale? {n : Nat} {e : ℤ} (hn : n < 2 ^ 64)
    (h : 1 + 2 ^ (-53 : ℤ) < Numeral.value ⟨n, e⟩) (hy : scale? (Float.ofNat n) e = some y) :
    ∃ r, Denotes y r ∧ 1 < r := by
  have hone : 1 < Numeral.value ⟨n, e⟩ := by linarith [two_pow_pos (-53)]
  have hpos := coefficient_pos_of_value (zero_lt_one.trans hone)
  cases e with
  | ofNat k =>
      rw [value_ofNat] at hone
      have hlarge : 1 < n * 10 ^ k := by exact_mod_cast hone
      have hdigits := one_le_nearest_natCast hpos
      have hpower := one_le_nearest_power k
      have htwo : 2 ≤ nearest n * nearest (10 ^ k) := by
        rcases Nat.lt_or_ge 1 n with hmany | hsingle
        · have hfirst : 2 ≤ nearest n := le_nearest_natCast (m := 2) (by norm_num) hmany
          nlinarith
        · have hmany : 2 ≤ 10 ^ k := by
            rw [Nat.le_antisymm hsingle hpos, one_mul] at hlarge
            exact hlarge
          have hsecond : 2 ≤ nearest ((10 ^ k : Nat) : ℚ) :=
            le_nearest_natCast (m := 2) (by norm_num) hmany
          push_cast at hsecond
          nlinarith
      refine ⟨_, denotes_scaleUp? hn hpos hy, one_lt_two.trans_le (le_nearest ?_ htwo)⟩
      exact representable_of_natCast_le (n := 2) (by norm_num)
  | negSucc k =>
      rw [value_negSucc, lt_div_iff₀ (by positivity)] at h
      cases Option.some.inj hy
      exact one_lt_scaleDown hn h

theorem scale?_pos {n : Nat} {e : ℤ} (hn : n < 2 ^ 64) (h : 2 ^ (-1074 : ℤ) < Numeral.value ⟨n, e⟩)
    (hy : scale? (Float.ofNat n) e = some y) : ∃ r, Denotes y r ∧ 0 < r := by
  have hpos := coefficient_pos_of_value ((two_pow_pos _).trans h)
  cases e with
  | ofNat k =>
      have hone : 1 ≤ nearest n * nearest (10 ^ k) :=
        one_le_mul_of_one_le_of_one_le (one_le_nearest_natCast hpos) (one_le_nearest_power k)
      exact ⟨_, denotes_scaleUp? hn hpos hy,
        zero_lt_one.trans_le (le_nearest representable_one hone)⟩
  | negSucc k =>
      cases Option.some.inj hy
      exact scaleDown_pos hn h

/-- Digits of 53 bits and a power of ten that is a double need only one rounding. -/
theorem scale?_exact {n : Nat} {e : ℤ} (hn : n ≤ 2 ^ 53) (he : e.natAbs ≤ 22)
    (hsmall : |nearest (Numeral.value ⟨n, e⟩)| < 2 ^ (1024 : ℤ)) :
    ∃ y, scale? (Float.ofNat n) e = some y ∧ Denotes y (nearest (Numeral.value ⟨n, e⟩)) := by
  have hdigits := denotes_ofNat (hn.trans_lt (by norm_num))
  rw [nearest_of_representable (representable_of_natCast_le hn)] at hdigits
  cases e with
  | ofNat k =>
      have hk : k ≤ 22 := he
      have hpower := denotes_powerOfTen (hk.trans (by decide))
      have hvalue : (n : ℚ) * 10 ^ k = Numeral.value ⟨n, .ofNat k⟩ := by
        rw [value_ofNat]
        push_cast
        rfl
      have hproduct := mul_nearest hdigits hpower
      rw [nearest_power_eq hk, hvalue] at hproduct
      have hdenotes : Denotes (Float.ofNat n * powerOfTen k) _ := denotes_of_stands hproduct hsmall
      refine ⟨_, ?_, hdenotes⟩
      change scaleUp? _ k = _
      rw [scaleUp?, if_pos (hk.trans (by decide))]
      dsimp only
      rw [hdenotes.isInf_eq_false, if_neg Bool.false_ne_true]
  | negSucc k =>
      have hk : k + 1 ≤ 22 := he
      have hpower := denotes_powerOfTen (hk.trans (by decide))
      rw [nearest_power_eq hk] at hpower
      have hquotient := div_nearest hdigits hpower (by positivity)
      rw [← value_negSucc] at hquotient
      refine ⟨_, rfl, ?_⟩
      rw [scaleDown, if_pos (hk.trans (by decide))]
      exact denotes_of_stands hquotient hsmall

/-! ## Doubles that have been written -/

theorem negative_iff (hx : Denotes x q) (hq : q ≠ 0) :
    (Binary.ofFloat x).negative = true ↔ q < 0 := by
  have hwhole := hx.eq_signed
  constructor
  · intro hnegative
    rw [if_pos hnegative] at hwhole
    have hback := hx.abs.neg
    rw [← hwhole] at hback
    rw [hx.unique hback]
    exact neg_lt_zero.mpr (abs_pos.mpr hq)
  · intro hneg
    by_contra hpositive
    rw [if_neg hpositive] at hwhole
    have hback := hx.abs
    rw [← hwhole] at hback
    rw [hx.unique hback] at hneg
    exact absurd hneg (not_lt.mpr (abs_nonneg q))

theorem exists_digits (hx : Denotes x q) (hq : q ≠ 0) :
    ∃ n : Numeral, n = (lay .document x).numeral ∧ n.coefficient < 2 ^ 64 ∧
      nearest n.value = |q| ∧
      reread? x = (scale? (Float.ofNat n.coefficient) n.exponent).map fun y =>
        if q < 0 then -y else y := by
  obtain ⟨n, hwritten, ⟨hzero, _⟩ | ⟨_, hreads⟩⟩ := written_lay hx
  · exact absurd hzero hq
  refine ⟨_, rfl, hwritten.coefficient_lt, ?_, ?_⟩
  · rw [hwritten.value_eq, hreads.nearest_value]
  · rw [reread?, realOf?_eq hwritten.coefficient_lt, hwritten.negative_eq]
    simp only [negative_iff hx hq]

theorem abs_eq_zero_of_denotes (hx : Denotes x 0) : x.abs = 0.0 := by
  change Stands x.toModel.unpack 0 at hx
  change Float.ofModel (.pack x.toModel.unpack.abs) = 0.0
  generalize x.toModel.unpack = u at hx ⊢
  generalize hq : (0 : ℚ) = q at hx
  cases hx with
  | zero s => rfl
  | finite s hm h => cases s with
    | positive => exact absurd hq (signed_positive_pos hm _).ne
    | negative => exact absurd hq (signed_negative_neg hm _).ne'

theorem reread?_zero (hx : Denotes x 0) : reread? x = some x := by
  have hread : ∀ negative : Bool, realOf? (layNumeral .document negative ⟨0, 0⟩) =
      some (if negative then -0.0 else 0.0) := by
    decide +kernel
  have hwhole := hx.eq_signed
  rw [abs_eq_zero_of_denotes hx] at hwhole
  rw [reread?, lay, if_pos (hx.mantissa_eq_zero_iff.mpr rfl), hread, ← hwhole]

theorem nearest_just_above_one : nearest (1 + 2 ^ (-53 : ℤ)) = 1 := by
  have hunit : unitExponent (1 + 2 ^ (-53 : ℤ)) = -52 :=
    unitExponent_eq (by norm_num) (by norm_num) (.inl (by norm_num)) (by norm_num)
  have hround : roundEven ((1 + 2 ^ (-53 : ℤ)) / 2 ^ (-52 : ℤ)) = 2 ^ 52 :=
    roundEven_eq_of_half (by norm_num) (by norm_num)
  rw [nearest, ulp, hunit, hround]
  norm_num

theorem reread?_inUnit (h : inUnit x = true) : ∃ y, reread? x = some y ∧ inUnit y = true := by
  obtain ⟨q, hx, hlow, hhigh⟩ := inUnit_iff.mp h
  rcases hlow.eq_or_lt with rfl | hpos
  · exact ⟨x, reread?_zero hx, h⟩
  rcases hhigh.eq_or_lt with rfl | hlt
  · have hone : reread? 1.0 = some 1.0 := by decide +kernel
    obtain rfl := hx.eq denotes_one one_ne_zero
    exact ⟨1.0, hone, h⟩
  obtain ⟨n, _, hcoefficient, hnearest, hreread⟩ := exists_digits hx hpos.ne'
  rw [abs_of_pos hpos] at hnearest
  have hvalue : n.value < 1 := by
    by_contra hlarge
    have hone := le_nearest representable_one (not_lt.mp hlarge)
    rw [hnearest] at hone
    exact absurd hlt (not_lt.mpr hone)
  have hdigits := coefficient_pos_of_nearest hnearest hpos.ne'
  obtain ⟨y, r, hscale, hy, hunit⟩ := scale?_inUnit hcoefficient hdigits hvalue
  rw [hscale, Option.map_some, if_neg (not_lt.mpr hpos.le)] at hreread
  exact ⟨y, hreread, inUnit_iff.mpr ⟨r, hy, hunit⟩⟩

theorem reread?_of_one_lt (hx : Denotes x q) (hq : 1 < q) (hy : reread? x = some y) :
    ∃ r, Denotes y r ∧ 1 < r := by
  have hpos : 0 < q := zero_lt_one.trans hq
  obtain ⟨n, _, hcoefficient, hnearest, hreread⟩ := exists_digits hx hpos.ne'
  rw [abs_of_pos hpos] at hnearest
  have hvalue : 1 + 2 ^ (-53 : ℤ) < n.value := by
    by_contra hsmall
    have hone := nearest_mono (not_lt.mp hsmall)
    rw [hnearest, nearest_just_above_one] at hone
    exact absurd hq (not_lt.mpr hone)
  rw [hreread] at hy
  obtain ⟨z, hscale, hz⟩ := Option.map_eq_some_iff.mp hy
  rw [if_neg (not_lt.mpr hpos.le)] at hz
  subst hz
  exact one_lt_scale? hcoefficient hvalue hscale

def leastNegative : Float := Float.ofBits 0x8000000000000001

theorem denotes_leastNegative : Denotes leastNegative (-2 ^ (-1074 : ℤ)) := by
  have h := Stands.finite .negative (m := 1) (e := -1074) (by norm_num)
    ⟨by norm_num, le_rfl, .inr rfl⟩
  rw [signed, Nat.cast_one, one_mul] at h
  exact h

theorem reread?_of_neg (hx : Denotes x q) (hq : q < 0) (hy : reread? x = some y) :
    ∃ r, Denotes y r ∧ r < 0 := by
  obtain ⟨n, _, hcoefficient, hnearest, hreread⟩ := exists_digits hx hq.ne
  rw [abs_of_neg hq] at hnearest
  rcases le_or_gt n.value (2 ^ (-1074 : ℤ)) with hleast | hlarge
  · have hsize : -q ≤ 2 ^ (-1074 : ℤ) := hnearest ▸ nearest_le (representable_two_pow le_rfl) hleast
    have hsize' := least_le_abs hx.representable hq.ne
    rw [abs_of_neg hq] at hsize'
    obtain rfl : q = -2 ^ (-1074 : ℤ) := by linarith
    obtain rfl := hx.eq denotes_leastNegative hq.ne
    have hback : reread? leastNegative = some leastNegative := by decide +kernel
    cases Option.some.inj (hback.symm.trans hy)
    exact ⟨_, hx, hq⟩
  · rw [hreread] at hy
    obtain ⟨z, hscale, hz⟩ := Option.map_eq_some_iff.mp hy
    rw [if_pos hq] at hz
    subst hz
    obtain ⟨r, hr, hpos⟩ := scale?_pos hcoefficient hlarge hscale
    exact ⟨-r, hr.neg, neg_lt_zero.mpr hpos⟩

/-- Reading never moves a finite double into the unit interval. -/
theorem inUnit_of_reread? (hx : x.isFinite = true) (hy : reread? x = some y)
    (h : inUnit y = true) : inUnit x = true := by
  obtain ⟨q, hq⟩ := isFinite_iff.mp hx
  obtain ⟨r, hr, hlow, hhigh⟩ := inUnit_iff.mp h
  rcases lt_or_ge q 0 with hneg | hnonneg
  · obtain ⟨r', hr', hbelow⟩ := reread?_of_neg hq hneg hy
    rw [hr.unique hr'] at hlow
    exact absurd hbelow (not_lt.mpr hlow)
  rcases le_or_gt q 1 with hle | hgt
  · exact inUnit_iff.mpr ⟨q, hq, hnonneg, hle⟩
  · obtain ⟨r', hr', hbeyond⟩ := reread?_of_one_lt hq hgt hy
    rw [hr.unique hr'] at hhigh
    exact absurd hbeyond (not_lt.mpr hhigh)

/-- Digits of 53 bits that are moved by at most twenty-two places come back exactly. -/
def Short (x : Float) : Prop :=
  (lay .document x).numeral.coefficient ≤ 2 ^ 53 ∧ (lay .document x).numeral.exponent.natAbs ≤ 22

instance (x : Float) : Decidable (Short x) := inferInstanceAs (Decidable (_ ∧ _))

theorem reread?_short (hx : x.isFinite = true) (h : Short x) : reread? x = some x := by
  obtain ⟨q, hq⟩ := isFinite_iff.mp hx
  by_cases hzero : q = 0
  · subst hzero
    exact reread?_zero hq
  obtain ⟨hcoefficient, hexponent⟩ := h
  obtain ⟨n, hn, _, hnearest, hreread⟩ := exists_digits hq hzero
  rw [← hn] at hcoefficient hexponent
  obtain ⟨y, hscale, hy⟩ := scale?_exact hcoefficient hexponent
    (by change |nearest n.value| < _; rw [hnearest, abs_abs]; exact hq.abs_lt)
  change Denotes y (nearest n.value) at hy
  rw [hnearest] at hy
  rw [hreread, hscale, Option.map_some]
  congr 1
  split
  · next hneg =>
      rw [abs_of_neg hneg] at hy
      have hback := hy.neg
      rw [neg_neg] at hback
      exact hback.eq hq hzero
  · next hpos =>
      rw [abs_of_nonneg (not_lt.mp hpos)] at hy
      exact hy.eq hq hzero

end Json

end ScalableCongestion
