import ScalableCongestion.Proofs.Binary64.Nearest

/-! What unpacked doubles stand for. A canonical one has a mantissa of 53 bits, of
fewer only at the least exponent. The two residual bits of an extended mantissa
say where a rational lies between two integers, as far as rounding has to know,
and shifting keeps that. So what rounds a mantissa with its accuracy gives the
canonical form of the nearest grid point. -/
namespace ScalableCongestion.Binary64
open Float.Model Float.Model.UnpackedFloat

def signed : Sign → ℚ → ℚ
  | .positive, q => q
  | .negative, q => -q

structure CanonicalAt (m : Nat) (e : ℤ) : Prop where
  mantissa_lt : m < 2 ^ 53
  le_exponent : -1074 ≤ e
  normal_or : 2 ^ 52 ≤ m ∨ e = -1074

/-- An unpacked double in canonical form stands for a rational. -/
inductive Stands : UnpackedFloat → ℚ → Prop where
  | zero (s : Sign) : Stands (.zero s) 0
  | finite (s : Sign) {m : Nat} {e : ℤ} (hm : 0 < m) (h : CanonicalAt m e) :
    Stands (.finite s m e hm) (signed s (m * 2 ^ e))

theorem nearest_signed (s : Sign) (q : ℚ) : nearest (signed s q) = signed s (nearest q) := by
  cases s with
  | positive => rfl
  | negative => exact nearest_neg q

theorem signed_apply (s : Sign) (n : ℤ) (q : ℚ) : (s.apply n : ℚ) * q = signed s (n * q) := by
  cases s with
  | positive => rfl
  | negative => simp [Sign.apply, signed]

/-- The mantissa and the round bit count the halves in a rational, and the sticky
bit tells whether something is left. -/
structure Extends (em : ExtendedMantissa) (q : ℚ) : Prop where
  halves : ⌊2 * q⌋ = 2 * em.mantissa + em.roundBit.toNat
  sticky : em.stickyBit = true ↔ (⌊2 * q⌋ : ℚ) ≠ 2 * q

theorem floor_two_mul_div_two (q : ℚ) : ⌊2 * q⌋ / 2 = ⌊q⌋ := by
  have h := Int.floor_div_natCast (2 * q) 2
  rw [Nat.cast_ofNat, mul_div_cancel_left₀ q two_ne_zero] at h
  exact h.symm

theorem Extends.floor_eq {em : ExtendedMantissa} {q : ℚ} (h : Extends em q) :
    ⌊q⌋ = em.mantissa := by
  have hhalves := h.halves
  have hbit := em.roundBit.toNat_le
  rw [← floor_two_mul_div_two]
  omega

theorem Extends.mantissa_le {em : ExtendedMantissa} {q : ℚ} (h : Extends em q) :
    (em.mantissa : ℚ) ≤ q := by
  have hfloor := Int.floor_le q
  rw [h.floor_eq] at hfloor
  exact_mod_cast hfloor

theorem Extends.lt_mantissa_add_one {em : ExtendedMantissa} {q : ℚ} (h : Extends em q) :
    q < em.mantissa + 1 := by
  have hfloor := Int.lt_floor_add_one q
  rw [h.floor_eq] at hfloor
  exact_mod_cast hfloor

theorem floor_two_mul_natCast (m : Nat) : ⌊2 * (m : ℚ)⌋ = 2 * m := by
  exact_mod_cast Int.floor_intCast (R := ℚ) (2 * m)

theorem extends_exact (m : Nat) : Extends (.ofMantissaAndAccuracy m .exact) m := by
  refine ⟨?_, ?_⟩
  · rw [floor_two_mul_natCast]
    simp [ExtendedMantissa.ofMantissaAndAccuracy]
  · rw [floor_two_mul_natCast]
    simp [ExtendedMantissa.ofMantissaAndAccuracy]

theorem Extends.eq_mantissa_iff {em : ExtendedMantissa} {q : ℚ} (h : Extends em q) :
    (em.mantissa : ℚ) = q ↔ em.roundBit = false ∧ em.stickyBit = false := by
  have hhalves := h.halves
  have hsticky := h.sticky
  constructor
  · intro heq
    rw [← heq, floor_two_mul_natCast] at hhalves hsticky
    constructor
    · cases hbit : em.roundBit with
      | false => rfl
      | true => simp [hbit] at hhalves
    · cases hbit : em.stickyBit with
      | false => rfl
      | true => simp [hbit] at hsticky
  · rintro ⟨hround, hnothing⟩
    rw [hhalves, hround, hnothing] at hsticky
    simp at hsticky
    exact hsticky

theorem Extends.shiftRightOne {em : ExtendedMantissa} {q : ℚ} (h : Extends em q) :
    Extends em.shiftRightOne (q / 2) := by
  have hhalf : 2 * (q / 2) = q := mul_div_cancel₀ q two_ne_zero
  refine ⟨?_, ?_⟩
  · rw [hhalf, h.floor_eq]
    have hdivision := Nat.div_add_mod em.mantissa 2
    rcases Nat.mod_two_eq_zero_or_one em.mantissa with hparity | hparity <;>
      simp [ExtendedMantissa.shiftRightOne, hparity] <;> omega
  · rw [hhalf, h.floor_eq, Int.cast_natCast, ne_eq, h.eq_mantissa_iff]
    cases hround : em.roundBit <;> cases hsticky : em.stickyBit <;>
      simp [ExtendedMantissa.shiftRightOne, hround, hsticky]

theorem Extends.shiftRight {em : ExtendedMantissa} {q : ℚ} (h : Extends em q) (k : Nat) :
    Extends (em >>> k) (q / 2 ^ k) := by
  induction k with
  | zero =>
      rw [pow_zero, div_one]
      exact h
  | succ k ih =>
      rw [pow_succ, ← div_div]
      exact ih.shiftRightOne

theorem Extends.roundedMantissa_eq {em : ExtendedMantissa} {q : ℚ} (h : Extends em q) :
    (em.roundedMantissa : ℤ) = roundEven q := by
  have hlow := Int.floor_le (2 * q)
  have hhigh := Int.lt_floor_add_one (2 * q)
  have hsticky := h.sticky
  rw [h.halves] at hlow hhigh hsticky
  obtain ⟨m, round, sticky⟩ := em
  symm
  cases round with
  | false => cases sticky with
    | false =>
        simp at hsticky
        rw [← hsticky]
        exact roundEven_intCast m
    | true =>
        simp at hlow hhigh hsticky
        have hbelow := lt_of_le_of_ne hlow hsticky
        apply roundEven_eq_of_lt (n := m)
        rw [Int.cast_natCast, abs_lt]
        constructor <;> linarith
  | true => cases sticky with
    | false =>
        simp at hsticky
        have hhalf : q = m + 1 / 2 := by linarith
        apply roundEven_eq_of_half
        · rcases Nat.mod_two_eq_zero_or_one m with hparity | hparity
          · simp [ExtendedMantissa.roundedMantissa, ExtendedMantissa.accuracy,
              Accuracy.roundToNearestEven, hparity, hhalf]
          · simp [ExtendedMantissa.roundedMantissa, ExtendedMantissa.accuracy,
              Accuracy.roundToNearestEven, hparity, hhalf]
            norm_num
        · simp [ExtendedMantissa.roundedMantissa, ExtendedMantissa.accuracy,
            Accuracy.roundToNearestEven]
          omega
    | true =>
        simp at hlow hhigh hsticky
        have hbelow := lt_of_le_of_ne hlow hsticky
        apply roundEven_eq_of_lt (n := (m + 1 : Nat))
        push_cast
        rw [abs_lt]
        constructor <;> linarith

def target (m : Nat) (e : ℤ) : ℤ := max (m.log2 + e - 52) (-1074)

def Fine (m : Nat) (e : ℤ) : Prop := 2 ^ 52 ≤ m ∨ e ≤ -1074

theorem targetExponent_eq (m : Nat) (e : ℤ) :
    Format.binary64.targetExponent (totalExponent m e) = target m e := by
  simp only [Format.targetExponent, totalExponent, Format.mantissaBits, Format.minExponent, target]
  omega

theorem le_target (m : Nat) (e : ℤ) : -1074 ≤ target m e := le_max_right _ _

theorem le_log2_of_two_pow_le {m k : Nat} (h : 2 ^ k ≤ m) : k ≤ m.log2 := by
  have hpos := Nat.two_pow_pos k
  exact (Nat.le_log2 (by omega)).mpr h

theorem Fine.le_target {m : Nat} {e : ℤ} (h : Fine m e) : e ≤ target m e := by
  unfold target
  rcases h with h | h
  · have hlog := le_log2_of_two_pow_le h
    omega
  · omega

theorem shiftToTargetExponent_eq {m : Nat} {e : ℤ} (hle : e ≤ target m e) (accuracy : Accuracy) :
    shiftToTargetExponent .binary64 m e accuracy =
      (ExtendedMantissa.ofMantissaAndAccuracy m accuracy >>> (target m e - e).toNat,
        target m e) := by
  rw [shiftToTargetExponent, targetExponent_eq, shiftToExponent]
  congr 1
  omega

theorem mantissa_ofMantissaAndAccuracy (m : Nat) (accuracy : Accuracy) :
    (ExtendedMantissa.ofMantissaAndAccuracy m accuracy).mantissa = m := by
  unfold ExtendedMantissa.ofMantissaAndAccuracy
  split <;> rfl

theorem two_pow_pos (k : ℤ) : (0 : ℚ) < 2 ^ k := zpow_pos (by norm_num) k

theorem mul_two_pow_lt {m : Nat} {q : ℚ} (hhigh : q < m + 1) (e : ℤ) :
    q * 2 ^ e < 2 ^ (target m e + 53) := by
  have hnext : m + 1 ≤ 2 ^ (m.log2 + 1) := Nat.lt_log2_self
  have hlog : q < 2 ^ (m.log2 + 1) := hhigh.trans_le (by exact_mod_cast hnext)
  calc q * 2 ^ e < 2 ^ (m.log2 + 1) * 2 ^ e := mul_lt_mul_of_pos_right hlog (two_pow_pos e)
    _ = 2 ^ ((m.log2 + 1 : Nat) + e : ℤ) := by rw [zpow_add₀ two_ne_zero, zpow_natCast]
    _ ≤ 2 ^ (target m e + 53) := by
        apply zpow_le_zpow_right₀ (by norm_num)
        unfold target
        omega

theorem two_pow_le_mul {m : Nat} {e : ℤ} {q : ℚ} (hfine : Fine m e) (hlow : m ≤ q) :
    2 ^ (target m e + 52) ≤ q * 2 ^ e ∨ target m e = -1074 := by
  by_cases hleast : target m e = -1074
  · exact .inr hleast
  left
  have hm : m ≠ 0 := by
    rintro rfl
    apply hleast
    rcases hfine with h | h
    · omega
    · rw [target, Nat.log2_zero]
      omega
  have hexponent : target m e + 52 = m.log2 + e := by
    unfold target at hleast ⊢
    omega
  have hlog : ((2 ^ m.log2 : Nat) : ℚ) ≤ q := (Nat.cast_le.mpr (Nat.log2_self_le hm)).trans hlow
  rw [hexponent, zpow_add₀ two_ne_zero, zpow_natCast]
  push_cast at hlog
  exact mul_le_mul_of_nonneg_right hlog (two_pow_pos e).le

theorem unitExponent_mul_two_pow {m : Nat} {e : ℤ} {q : ℚ} (hfine : Fine m e) (hq : q ≠ 0)
    (hlow : m ≤ q) (hhigh : q < m + 1) : unitExponent (q * 2 ^ e) = target m e := by
  have hnonneg : (0 : ℚ) ≤ q := m.cast_nonneg.trans hlow
  have hsize := abs_of_nonneg (mul_nonneg hnonneg (two_pow_pos e).le)
  apply unitExponent_eq (mul_ne_zero hq (two_pow_pos e).ne') (le_target m e)
  · rw [hsize]
    exact two_pow_le_mul hfine hlow
  · rw [hsize]
    exact mul_two_pow_lt hhigh e

/-- The first shift ends at the unit of the rational, so rounding there gives the
nearest grid point. -/
theorem nearest_eq_of_extends {m : Nat} {e : ℤ} {accuracy : Accuracy} {q : ℚ}
    (h : Extends (.ofMantissaAndAccuracy m accuracy) q) (hfine : Fine m e) :
    nearest (q * 2 ^ e) =
      (ExtendedMantissa.ofMantissaAndAccuracy m accuracy >>>
        (target m e - e).toNat).roundedMantissa * 2 ^ target m e := by
  have hle := hfine.le_target
  have hrounded := (h.shiftRight (target m e - e).toNat).roundedMantissa_eq
  have hcast (n : Nat) (k : ℤ) (hn : (n : ℤ) = k) : (n : ℚ) = k := by exact_mod_cast hn
  rw [hcast _ _ hrounded]
  by_cases hq : q = 0
  · have hround : roundEven 0 = 0 := roundEven_intCast 0
    rw [hq, zero_mul, zero_div, nearest_zero, hround, Int.cast_zero, zero_mul]
  have hlow := h.mantissa_le
  have hhigh := h.lt_mantissa_add_one
  rw [mantissa_ofMantissaAndAccuracy] at hlow hhigh
  have hunit := unitExponent_mul_two_pow hfine hq hlow hhigh
  have hshift : (2 : ℚ) ^ target m e = 2 ^ e * 2 ^ (target m e - e).toNat := by
    rw [← zpow_natCast, ← zpow_add₀ two_ne_zero]
    congr 1
    omega
  rw [nearest, ulp, hunit]
  congr 3
  rw [hshift, mul_comm q, mul_div_mul_left _ _ (zpow_ne_zero e two_ne_zero)]

theorem representable_two_pow {k : ℤ} (h : -1074 ≤ k) : Representable (2 ^ k) :=
  ⟨1, k, by norm_num, h, by rw [Int.cast_one, one_mul]⟩

/-- A rounded mantissa has at most one bit too many, and then it is a power of two. -/
structure RoundedAt (m : Nat) (e : ℤ) : Prop where
  mantissa_le : m ≤ 2 ^ 53
  le_exponent : -1074 ≤ e
  normal_or : 2 ^ 52 ≤ m ∨ e = -1074

theorem natCast_mul_two_pow (k : Nat) (e : ℤ) : ((2 ^ k : Nat) : ℚ) * 2 ^ e = 2 ^ (e + k) := by
  rw [add_comm, zpow_add₀ two_ne_zero, zpow_natCast]
  push_cast
  rfl

theorem roundedAt_of_extends {m : Nat} {e : ℤ} {accuracy : Accuracy} {q : ℚ}
    (h : Extends (.ofMantissaAndAccuracy m accuracy) q) (hfine : Fine m e) :
    RoundedAt (ExtendedMantissa.ofMantissaAndAccuracy m accuracy >>>
      (target m e - e).toNat).roundedMantissa (target m e) := by
  have hlow := h.mantissa_le
  have hhigh := h.lt_mantissa_add_one
  rw [mantissa_ofMantissaAndAccuracy] at hlow hhigh
  have hnearest := nearest_eq_of_extends h hfine
  have hmin := le_target m e
  generalize (ExtendedMantissa.ofMantissaAndAccuracy m accuracy >>>
    (target m e - e).toNat).roundedMantissa = r at hnearest ⊢
  -- a power of two that bounds the rational bounds its nearest grid point
  have hcancel {a b : Nat} (hab : (a : ℚ) * 2 ^ target m e ≤ b * 2 ^ target m e) : a ≤ b := by
    exact_mod_cast le_of_mul_le_mul_right hab (two_pow_pos _)
  refine ⟨?_, hmin, ?_⟩
  · apply hcancel
    rw [natCast_mul_two_pow, ← hnearest]
    exact nearest_le (representable_two_pow (by omega)) (mul_two_pow_lt hhigh e).le
  · rcases two_pow_le_mul hfine hlow with hnormal | hleast
    · left
      apply hcancel
      rw [natCast_mul_two_pow, ← hnearest]
      exact le_nearest (representable_two_pow (by omega)) hnormal
    · exact .inr hleast

theorem log2_le_of_lt {m k : Nat} (h : m < 2 ^ (k + 1)) : m.log2 ≤ k := by
  by_cases hzero : m = 0
  · rw [hzero, Nat.log2_zero]
    exact Nat.zero_le k
  · exact Nat.le_of_lt_succ ((Nat.log2_lt hzero).mpr h)

theorem CanonicalAt.target_eq {m : Nat} {e : ℤ} (h : CanonicalAt m e) : target m e = e := by
  have hlog := log2_le_of_lt h.mantissa_lt
  have hmin := h.le_exponent
  unfold target
  rcases h.normal_or with hnormal | rfl
  · have hlog' := le_log2_of_two_pow_le hnormal
    omega
  · omega

theorem RoundedAt.exists_canonical {m : Nat} {e : ℤ} (h : RoundedAt m e) :
    ∃ m' e', (shiftToTargetExponent .binary64 m e .exact).1.mantissa = m' ∧
      (shiftToTargetExponent .binary64 m e .exact).2 = e' ∧
      (m' : ℚ) * 2 ^ e' = m * 2 ^ e ∧ CanonicalAt m' e' := by
  obtain ⟨hle, hmin, hnormal⟩ := h
  rcases hle.lt_or_eq with hlt | rfl
  · have hcanonical : CanonicalAt m e := ⟨hlt, hmin, hnormal⟩
    rw [shiftToTargetExponent_eq hcanonical.target_eq.ge, hcanonical.target_eq, sub_self]
    exact ⟨m, e, rfl, rfl, rfl, hcanonical⟩
  · have htarget : target (2 ^ 53) e = e + 1 := by
      rw [target, Nat.log2_two_pow]
      omega
    rw [shiftToTargetExponent_eq (by omega), htarget, add_sub_cancel_left]
    refine ⟨2 ^ 52, e + 1, rfl, rfl, ?_, by norm_num, by omega, .inl le_rfl⟩
    rw [natCast_mul_two_pow, natCast_mul_two_pow]
    congr 1
    omega

theorem signed_zero (s : Sign) : signed s 0 = 0 := by
  cases s with
  | positive => rfl
  | negative => exact neg_zero

theorem roundWithAccuracy_nearest {m : Nat} {e : ℤ} {accuracy : Accuracy} {q : ℚ}
    (h : Extends (.ofMantissaAndAccuracy m accuracy) q) (hfine : Fine m e) (s : Sign) :
    Stands (roundWithAccuracy .binary64 s m e accuracy) (nearest (signed s (q * 2 ^ e))) := by
  have hnearest := nearest_eq_of_extends h hfine
  have hrounded := roundedAt_of_extends h hfine
  obtain ⟨m', e', hm', he', hvalue, hcanonical⟩ := hrounded.exists_canonical
  rw [nearest_signed, hnearest, ← hvalue]
  simp only [roundWithAccuracy, shiftToTargetExponent_eq hfine.le_target, hm', he']
  split
  · rename_i hzero
    rw [hzero, Nat.cast_zero, zero_mul, signed_zero]
    exact .zero s
  · exact .finite s _ hcanonical

theorem decreaseExponent_mul (m : Nat) (e t : ℤ) :
    ((decreaseExponent m e t).1 : ℚ) * 2 ^ (decreaseExponent m e t).2 = m * 2 ^ e := by
  rw [decreaseExponent, Nat.shiftLeft_eq]
  push_cast
  rw [mul_assoc, ← zpow_natCast, ← zpow_add₀ two_ne_zero]
  congr 2
  omega

theorem log2_shiftLeft {m : Nat} (hm : m ≠ 0) (k : Nat) : (m <<< k).log2 = m.log2 + k := by
  induction k with
  | zero => rfl
  | succ k ih =>
      have hshifted : m <<< k ≠ 0 := by
        rw [Nat.shiftLeft_eq]
        exact Nat.mul_ne_zero hm (Nat.two_pow_pos k).ne'
      rw [Nat.shiftLeft_succ, Nat.log2_two_mul hshifted, ih, Nat.add_assoc]

theorem fine_decreaseExponent {m : Nat} (hm : m ≠ 0) (e : ℤ) :
    Fine (decreaseExponent m e (target m e)).1 (decreaseExponent m e (target m e)).2 := by
  have hshifted : m <<< (e - target m e).toNat ≠ 0 := by
    rw [Nat.shiftLeft_eq]
    exact Nat.mul_ne_zero hm (Nat.two_pow_pos _).ne'
  have hlog := log2_shiftLeft hm (e - target m e).toNat
  rw [Fine, decreaseExponent, ← Nat.le_log2 hshifted, hlog]
  unfold target
  omega

theorem round_nearest {m : Nat} (hm : m ≠ 0) (s : Sign) (e : ℤ) :
    Stands (UnpackedFloat.round .binary64 s m e) (nearest (signed s (m * 2 ^ e))) := by
  rw [UnpackedFloat.round, targetExponent_eq, ← decreaseExponent_mul m e (target m e)]
  exact roundWithAccuracy_nearest (extends_exact _) (fine_decreaseExponent hm e) s

theorem normalize_nearest (n e : ℤ) (zeroSign : Sign) :
    Stands (UnpackedFloat.normalize .binary64 n e zeroSign) (nearest (n * 2 ^ e)) := by
  have hnat {k : ℤ} (hk : 0 < k) : ((k.toNat : Nat) : ℚ) = k := by
    exact_mod_cast Int.toNat_of_nonneg hk.le
  rcases lt_trichotomy n 0 with hneg | rfl | hpos
  · have h := round_nearest (m := (-n).toNat) (by omega) .negative e
    rw [hnat (neg_pos.mpr hneg), signed, Int.cast_neg, neg_mul, neg_neg] at h
    rw [UnpackedFloat.normalize, compare_lt_iff_lt.mpr hneg]
    exact h
  · rw [UnpackedFloat.normalize, Int.cast_zero, zero_mul, nearest_zero]
    exact .zero zeroSign
  · have h := round_nearest (m := n.toNat) (by omega) .positive e
    rw [hnat hpos, signed] at h
    rw [UnpackedFloat.normalize, compare_gt_iff_gt.mpr hpos]
    exact h

end ScalableCongestion.Binary64
