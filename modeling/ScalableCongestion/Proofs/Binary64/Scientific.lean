import ScalableCongestion.Json.Number
import ScalableCongestion.Proofs.Binary64.Identity

/-! Doubles from decimals. A coefficient and a power of ten give the nearest double
to their product, or an infinity if that is out of range. -/
namespace ScalableCongestion
open Float.Model (Format UnpackedFloat)
open Float.Model.UnpackedFloat

namespace Binary64

theorem nearest_eq_zero {q : ℚ} (h : |q| < 2 ^ (-1075 : ℤ)) : nearest q = 0 := by
  have hulp : (2 : ℚ) ^ (-1074 : ℤ) ≤ ulp q :=
    zpow_le_zpow_right₀ one_le_two (le_unitExponent q)
  have hhalf : (2 : ℚ) ^ (-1075 : ℤ) * 2 = 2 ^ (-1074 : ℤ) := (zpow_add_one₀ two_ne_zero _).symm
  have hround : roundEven (q / ulp q) = 0 := by
    apply roundEven_eq_of_lt
    rw [Int.cast_zero, zero_sub, abs_neg, abs_div, abs_of_pos (ulp_pos q), div_lt_iff₀ (ulp_pos q)]
    linarith
  rw [nearest, hround, Int.cast_zero, zero_mul]

theorem ten_zpow_le {e : ℤ} (he : e ≤ 0) : (10 : ℚ) ^ e ≤ 2 ^ (3 * e) := by
  obtain ⟨k, hk⟩ := Int.eq_ofNat_of_zero_le (neg_nonneg.mpr he)
  obtain rfl : e = -(k : ℤ) := by omega
  rw [zpow_mul, zpow_neg, zpow_neg, zpow_natCast, zpow_natCast]
  exact inv_anti₀ (by positivity) (pow_le_pow_left₀ (by norm_num) (by norm_num) k)

/-- Below the range that is computed, the product is less than half of the least
double. -/
theorem mul_ten_zpow_lt {m : Nat} {e : ℤ} (he : e < -(2 ^ 11 + m.log2)) :
    (m : ℚ) * 10 ^ e < 2 ^ (-1075 : ℤ) := by
  have hlog : m < 2 ^ (m.log2 + 1) := Nat.lt_log2_self
  calc (m : ℚ) * 10 ^ e ≤ m * 2 ^ (3 * e) :=
        mul_le_mul_of_nonneg_left (ten_zpow_le (by omega)) m.cast_nonneg
    _ < (2 ^ (m.log2 + 1) : Nat) * 2 ^ (3 * e) :=
        mul_lt_mul_of_pos_right (Nat.cast_lt.mpr hlog) (two_pow_pos _)
    _ = 2 ^ (3 * e + (m.log2 + 1 : Nat)) := natCast_mul_two_pow _ _
    _ ≤ 2 ^ (-1075 : ℤ) := zpow_le_zpow_right₀ one_le_two (by omega)

theorem mul_power_nearest {m k : Nat} (hm : 0 < m <<< 53) (hk : 0 < 10 ^ k) :
    Stands (UnpackedFloat.mul .binary64 (.finite .positive (m <<< 53) (-53) hm)
      (.finite .positive (10 ^ k) 0 hk)) (nearest (m * 10 ^ (k : ℤ))) := by
  have hpos : 1 ≤ m := by
    rw [Nat.shiftLeft_eq] at hm
    exact Nat.pos_of_mul_pos_right hm
  have hlarge : 2 ^ 52 ≤ m <<< 53 * 10 ^ k := by
    rw [Nat.shiftLeft_eq]
    calc 2 ^ 52 ≤ 1 * 2 ^ 53 * 1 := by norm_num
      _ ≤ m * 2 ^ 53 * 10 ^ k := Nat.mul_le_mul (Nat.mul_le_mul_right _ hpos) hk
  have hproduct := mul_finite_nearest .positive .positive (-53) 0 hm hk (.inl hlarge)
  have hvalue : signed .positive ((m <<< 53 : Nat) * 2 ^ (-53 : ℤ)) *
      signed .positive ((10 ^ k : Nat) * 2 ^ (0 : ℤ)) = m * 10 ^ (k : ℤ) := by
    rw [signed, signed, Nat.shiftLeft_eq, Nat.cast_mul, mul_assoc (m : ℚ), natCast_mul_two_pow,
      zpow_zero, mul_one, zpow_natCast]
    push_cast
    norm_num
  rw [hvalue] at hproduct
  exact hproduct

theorem div_power_nearest {m k : Nat} (hm : 0 < m) (hk : 0 < 10 ^ k) :
    Stands (UnpackedFloat.div .binary64 (.finite .positive m 0 hm)
      (.finite .positive (10 ^ k) 0 hk)) (nearest (m * 10 ^ (-k : ℤ))) := by
  have hquotient := div_finite_nearest .positive .positive 0 0 hm hk
  have hvalue : signed .positive (m * 2 ^ (0 : ℤ)) /
      signed .positive ((10 ^ k : Nat) * 2 ^ (0 : ℤ)) = m * 10 ^ (-k : ℤ) := by
    rw [signed, signed, zpow_zero, mul_one, mul_one, zpow_neg, zpow_natCast, div_eq_mul_inv]
    push_cast
    rfl
  rw [hvalue] at hquotient
  exact hquotient

theorem ofScientific_nearest (m : Nat) {e : ℤ} (he : e ≤ 2 ^ 11) :
    Stands (UnpackedFloat.ofScientific .binary64 m e) (nearest (m * 10 ^ e)) := by
  rw [UnpackedFloat.ofScientific]
  by_cases hm : m = 0
  · rw [dif_pos hm, hm, Nat.cast_zero, zero_mul, nearest_zero]
    exact .zero .positive
  have hhigh : ¬e > 2 ^ Format.binary64.exponentBits := not_lt.mpr he
  rw [dif_neg hm, if_neg hhigh]
  by_cases hlow : e < -((2 ^ Format.binary64.exponentBits : ℤ) + m.log2)
  · have hpos : (0 : ℚ) ≤ m * 10 ^ e := by positivity
    rw [if_pos hlow, nearest_eq_zero]
    · exact .zero .positive
    · rw [abs_of_nonneg hpos]
      exact mul_ten_zpow_lt hlow
  rw [if_neg hlow]
  cases e with
  | ofNat k =>
      have hnonneg : 0 ≤ Int.ofNat k := Int.natCast_nonneg k
      rw [if_pos hnonneg]
      exact mul_power_nearest _ _
  | negSucc k =>
      rw [if_neg (Int.not_le.mpr (Int.negSucc_lt_zero k))]
      exact div_power_nearest (k := k + 1) _ _

theorem pack_overflow {u : UnpackedFloat} {q : ℚ} (h : Stands u q) (hlarge : 2 ^ (1024 : ℤ) ≤ |q|) :
    ∃ s, pack .binary64 u = packedInfinity .binary64 s := by
  cases h with
  | zero s =>
      rw [abs_zero] at hlarge
      exact absurd (two_pow_pos 1024) (not_lt.mpr hlarge)
  | finite s hm h =>
      rename_i m e
      refine ⟨s, ?_⟩
      rw [abs_signed s (mul_nonneg m.cast_nonneg (two_pow_pos e).le)] at hlarge
      have hexponent : 972 ≤ e := by
        by_contra hsmall
        exact absurd (mul_two_pow_lt_of_le h.mantissa_lt (by omega)) (not_lt.mpr hlarge)
      have hbiased : e + Format.binary64.exponentBias + Format.binary64.mantissaBitsWithoutImplicit
          = e + 1075 := by
        rw [add_assoc]
        rfl
      simp only [pack, hbiased]
      rw [if_pos]
      change 2048 ≤ _
      omega

theorem unpack_packedInfinity (s : Sign) :
    unpack .binary64 (packedInfinity .binary64 s) = .infinity s := by
  cases s <;> rfl

theorem Stands.isInf_eq_false {u : UnpackedFloat} {q : ℚ} (h : Stands u q) : u.isInf = false := by
  cases h <;> rfl

end Binary64

open Binary64

variable {x : Float} {p q : ℚ}

theorem isInf_of_overflow {u : UnpackedFloat} (h : Stands u q) (hlarge : 2 ^ (1024 : ℤ) ≤ |q|) :
    Float.isInf (.ofModel (.pack u)) = true := by
  obtain ⟨s, hs⟩ := pack_overflow h hlarge
  change (unpack .binary64 (pack .binary64 u)).isInf = true
  rw [hs, unpack_packedInfinity]
  rfl

theorem Denotes.isInf_eq_false (h : Denotes x q) : x.isInf = false := Stands.isInf_eq_false h

theorem denotes_mul_of_finite {y : Float} (hx : Denotes x p) (hy : Denotes y q)
    (hfinite : (x * y).isInf = false) : Denotes (x * y) (nearest (p * q)) := by
  have hstands := mul_nearest hx hy
  by_cases hsmall : |nearest (p * q)| < 2 ^ (1024 : ℤ)
  · exact denotes_of_stands hstands hsmall
  · have hinfinite : (x * y).isInf = true := isInf_of_overflow hstands (not_lt.mp hsmall)
    rw [hfinite] at hinfinite
    cases hinfinite

theorem Denotes.of_pack {u : UnpackedFloat} (h : Denotes (.ofModel (.pack u)) q) (hu : Stands u p) :
    q = p := by
  by_cases hsmall : |p| < 2 ^ (1024 : ℤ)
  · exact h.unique (denotes_of_stands hu hsmall)
  · have hinfinite := isInf_of_overflow hu (not_lt.mp hsmall)
    rw [h.isInf_eq_false] at hinfinite
    cases hinfinite

/-! ## Coefficients and powers of ten -/

/-- The double that a decimal gives was rounded to the nearest grid point. -/
def Rounded (x : Float) (q : ℚ) : Prop :=
  ∃ u, x = .ofModel (.pack u) ∧ Stands u (nearest q)

theorem Rounded.denotes (h : Rounded x q) (hsmall : |nearest q| < 2 ^ (1024 : ℤ)) :
    Denotes x (nearest q) := by
  obtain ⟨u, rfl, hu⟩ := h
  exact denotes_of_stands hu hsmall

theorem Rounded.nearest_eq (h : Rounded x q) (hx : Denotes x p) : nearest q = p := by
  obtain ⟨u, rfl, hu⟩ := h
  exact (hx.of_pack hu).symm

theorem representable_ten_pow {k : Nat} (h : k ≤ 22) : Representable (10 ^ k) := by
  refine ⟨5 ^ k, k, ?_, by omega, ?_⟩
  · rw [abs_of_nonneg (by positivity)]
    calc (5 : ℤ) ^ k ≤ 5 ^ 22 := pow_le_pow_right₀ (by norm_num) h
      _ ≤ 2 ^ 53 := by norm_num
  · push_cast
    rw [zpow_natCast, ← mul_pow]
    norm_num

theorem tablePower_eq : ∀ k : Fin Float.exactlyRepresentablePowersOfTen.size,
    Float.exactlyRepresentablePowersOfTen[k] = .ofModel (Float.Model.ofScientific 1 k.val) := by
  decide +kernel

theorem denotes_tablePower {k : Nat} (h : k < Float.exactlyRepresentablePowersOfTen.size) :
    Denotes Float.exactlyRepresentablePowersOfTen[k] (10 ^ k) := by
  have hle : k ≤ 22 := Nat.le_of_lt_succ h
  have hexact : nearest (10 ^ k) = 10 ^ k :=
    nearest_of_representable (representable_ten_pow hle)
  have hsmall : (10 : ℚ) ^ k ≤ 2 ^ 100 := by
    calc (10 : ℚ) ^ k ≤ 10 ^ 22 := pow_le_pow_right₀ (by norm_num) hle
      _ ≤ 2 ^ 100 := by norm_num
  have hstands := ofScientific_nearest 1 (e := k) (by omega)
  rw [Nat.cast_one, one_mul, zpow_natCast] at hstands
  have hdenotes := denotes_pack hstands (abs_le_of_le_two_pow (by positivity) hsmall)
  rw [hexact] at hdenotes
  exact tablePower_eq ⟨k, h⟩ ▸ hdenotes

theorem denotes_smallNat {m : Nat} (h : m < 2 ^ 53) : Denotes m.toUInt64.toFloat m := by
  have hback : m.toUInt64.toNat = m := by
    rw [Nat.toUInt64_eq, UInt64.toNat_ofNat_of_lt']
    exact h.trans (by decide)
  have hexact := nearest_of_representable (representable_of_natCast_le h.le)
  have hsmall : (m : ℚ) ≤ 2 ^ 100 := by
    calc (m : ℚ) ≤ (2 ^ 53 : Nat) := Nat.cast_le.mpr h.le
      _ ≤ 2 ^ 100 := by norm_num
  have hstands := normalize_nearest m.toUInt64.toNat 0 .positive
  rw [zpow_zero, mul_one, Int.cast_natCast] at hstands
  have hdenotes : Denotes m.toUInt64.toFloat (nearest m.toUInt64.toNat) :=
    denotes_pack hstands (by rw [hback]; exact abs_le_of_le_two_pow m.cast_nonneg hsmall)
  rw [hback, hexact] at hdenotes
  exact hdenotes

theorem rounded_ofScientific (m : Nat) (below : Bool) {k : Nat} (h : k ≤ 2 ^ 11) :
    Rounded (OfScientific.ofScientific m below k)
      (m * 10 ^ (if below then -(k : ℤ) else k)) := by
  change Rounded (Float.ofScientific m below k) _
  unfold Float.ofScientific
  split
  · next hsmall =>
      have hm := denotes_smallNat hsmall.1
      have hk := denotes_tablePower (Nat.lt_succ_of_le hsmall.2)
      cases below with
      | false =>
          refine ⟨_, rfl, ?_⟩
          rw [if_neg Bool.false_ne_true, zpow_natCast]
          exact mul_nearest hm hk
      | true =>
          refine ⟨_, rfl, ?_⟩
          rw [if_pos rfl, zpow_neg, zpow_natCast, ← div_eq_mul_inv]
          exact div_nearest hm hk (by positivity)
  · cases below with
    | false =>
        have hk : (k : ℤ) ≤ 2 ^ 11 := by exact_mod_cast h
        exact ⟨_, rfl, ofScientific_nearest m hk⟩
    | true =>
        have hk : -(k : ℤ) ≤ 2 ^ 11 := by omega
        refine ⟨_, rfl, ?_⟩
        rw [if_pos rfl, if_pos rfl, Int.negOfNat_eq]
        exact ofScientific_nearest m hk

end ScalableCongestion
