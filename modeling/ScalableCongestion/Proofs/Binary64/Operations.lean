import ScalableCongestion.Proofs.Binary64.Unpacked

/-! Arithmetic and comparison of unpacked doubles, told by the rationals they
stand for. Each operation gives the nearest grid point to the exact result. -/
namespace ScalableCongestion.Binary64
open Float.Model Float.Model.UnpackedFloat

variable {u v : UnpackedFloat} {p q : ℚ}

theorem Stands.representable (h : Stands u q) : Representable q := by
  cases h with
  | zero s => exact ⟨0, 0, by norm_num, by norm_num, by norm_num⟩
  | finite s hm h =>
      rename_i m e
      have hlt := h.mantissa_lt
      have hmin := h.le_exponent
      cases s with
      | positive => exact ⟨m, e, by rw [abs_le]; omega, hmin, rfl⟩
      | negative =>
          refine ⟨-m, e, by rw [abs_le]; omega, hmin, ?_⟩
          rw [signed, Int.cast_neg, neg_mul]
          rfl

theorem Stands.nearest_eq (h : Stands u q) : nearest q = q :=
  nearest_of_representable h.representable

theorem Stands.unique (hp : Stands u p) (hq : Stands u q) : p = q := by
  cases hp <;> cases hq <;> rfl

theorem Stands.isNaN_eq_false (h : Stands u q) : u.isNaN = false := by
  cases h <;> rfl

theorem signed_decreaseExponent (s : Sign) (m : Nat) {e t : ℤ} (h : t ≤ e) :
    (s.apply (decreaseExponent m e t).1 : ℚ) * 2 ^ t = signed s (m * 2 ^ e) := by
  have hexponent : (decreaseExponent m e t).2 = t := by
    simp only [decreaseExponent]
    omega
  have hvalue := decreaseExponent_mul m e t
  rw [hexponent] at hvalue
  rw [signed_apply, Int.cast_natCast, hvalue]

theorem add_nearest (hu : Stands u p) (hv : Stands v q) :
    Stands (UnpackedFloat.add .binary64 u v) (nearest (p + q)) := by
  cases hu with
  | zero s => cases hv with
    | zero s' =>
        rw [add_zero, nearest_zero]
        simp only [UnpackedFloat.add]
        split
        · exact .zero s
        · exact .zero .positive
    | finite s' hm' h' =>
        have hv := Stands.finite s' hm' h'
        rw [zero_add, hv.nearest_eq]
        exact hv
  | finite s hm h =>
    have hu := Stands.finite s hm h
    cases hv with
    | zero s' =>
        rw [add_zero, hu.nearest_eq]
        exact hu
    | finite s' hm' h' =>
        rename_i m e m' e'
        rw [← signed_decreaseExponent s m (min_le_left e e'),
          ← signed_decreaseExponent s' m' (min_le_right e e'), ← add_mul, ← Int.cast_add]
        exact normalize_nearest _ _ _

theorem signed_neg (s : Sign) (q : ℚ) : signed (-s) q = -signed s q := by
  cases s with
  | positive => rfl
  | negative => exact (neg_neg q).symm

theorem sub_nearest (hu : Stands u p) (hv : Stands v q) :
    Stands (UnpackedFloat.sub .binary64 u v) (nearest (p - q)) := by
  cases hu with
  | zero s => cases hv with
    | zero s' =>
        rw [sub_zero, nearest_zero]
        simp only [UnpackedFloat.sub]
        split
        · exact .zero s
        · exact .zero .positive
    | finite s' hm' h' =>
        have hv := Stands.finite (-s') hm' h'
        rw [zero_sub, ← signed_neg, hv.nearest_eq]
        exact hv
  | finite s hm h =>
    have hu := Stands.finite s hm h
    cases hv with
    | zero s' =>
        rw [sub_zero, hu.nearest_eq]
        exact hu
    | finite s' hm' h' =>
        rename_i m e m' e'
        rw [← signed_decreaseExponent s m (min_le_left e e'),
          ← signed_decreaseExponent s' m' (min_le_right e e'), ← sub_mul, ← Int.cast_sub]
        exact normalize_nearest _ _ _

theorem signed_mul (s s' : Sign) (p q : ℚ) :
    signed (s * s') (p * q) = signed s p * signed s' q := by
  cases s <;> cases s'
  · exact (neg_mul_neg p q).symm
  · exact (neg_mul p q).symm
  · exact (mul_neg p q).symm
  · rfl

theorem CanonicalAt.fine_mul {m m' : Nat} {e e' : ℤ} (h : CanonicalAt m e)
    (h' : CanonicalAt m' e') (hm : 0 < m) (hm' : 0 < m') : Fine (m * m') (e + e') := by
  rcases h.normal_or with hnormal | hleast
  · exact .inl (hnormal.trans (Nat.le_mul_of_pos_right m hm'))
  · rcases h'.normal_or with hnormal | hleast'
    · exact .inl (hnormal.trans (Nat.le_mul_of_pos_left m' hm))
    · right
      omega

theorem mul_finite_nearest (s s' : Sign) {m m' : Nat} (e e' : ℤ) (hm : 0 < m) (hm' : 0 < m')
    (hfine : Fine (m * m') (e + e')) :
    Stands (UnpackedFloat.mul .binary64 (.finite s m e hm) (.finite s' m' e' hm'))
      (nearest (signed s (m * 2 ^ e) * signed s' (m' * 2 ^ e'))) := by
  have hrounded := roundWithAccuracy_nearest (extends_exact (m * m')) hfine (s * s')
  have hvalue : ((m * m' : Nat) : ℚ) * 2 ^ (e + e') = m * 2 ^ e * (m' * 2 ^ e') := by
    rw [zpow_add₀ two_ne_zero]
    push_cast
    ring
  rw [hvalue, signed_mul] at hrounded
  exact hrounded

theorem mul_nearest (hu : Stands u p) (hv : Stands v q) :
    Stands (UnpackedFloat.mul .binary64 u v) (nearest (p * q)) := by
  cases hu with
  | zero s =>
      rw [zero_mul, nearest_zero]
      cases hv <;> exact .zero _
  | finite s hm h =>
    cases hv with
    | zero s' =>
        rw [mul_zero, nearest_zero]
        exact .zero _
    | finite s' hm' h' => exact mul_finite_nearest s s' _ _ hm hm' (h.fine_mul h' hm hm')

theorem extends_of_bounds {em : ExtendedMantissa} {q : ℚ}
    (hlow : 2 * em.mantissa + em.roundBit.toNat ≤ 2 * q)
    (hhigh : 2 * q < 2 * em.mantissa + em.roundBit.toNat + 1)
    (hsticky : em.stickyBit = true ↔ (2 * em.mantissa + em.roundBit.toNat : ℚ) ≠ 2 * q) :
    Extends em q := by
  have hfloor : ⌊2 * q⌋ = 2 * em.mantissa + em.roundBit.toNat := by
    rw [Int.floor_eq_iff]
    push_cast
    exact ⟨hlow, hhigh⟩
  refine ⟨hfloor, ?_⟩
  rw [hfloor]
  push_cast
  exact hsticky

theorem two_mul_div_eq (n : Nat) {d : Nat} (hd : 0 < d) :
    2 * ((n : ℚ) / d) = 2 * (n / d : Nat) + (2 * (n % d) : Nat) / d := by
  have hd' : (d : ℚ) ≠ 0 := Nat.cast_ne_zero.mpr hd.ne'
  have hcast : (n : ℚ) = d * (n / d : Nat) + (n % d : Nat) := by
    exact_mod_cast (Nat.div_add_mod n d).symm
  rw [mul_div_assoc', div_eq_iff hd', add_mul, div_mul_cancel₀ _ hd', hcast]
  push_cast
  ring

theorem extends_division (n : Nat) {d : Nat} (hd : 0 < d) :
    Extends (.ofMantissaAndAccuracy (n / d) (accuracyOfFraction (n % d) d)) (n / d) := by
  have hd' : (0 : ℚ) < d := Nat.cast_pos.mpr hd
  have hmod : 2 * (n % d) < 2 * d := Nat.mul_lt_mul_of_pos_left (Nat.mod_lt n hd) two_pos
  have hvalue := two_mul_div_eq n hd
  have htwo : ((2 * (n % d) : Nat) : ℚ) / d < 2 := by
    rw [div_lt_iff₀ hd']
    exact_mod_cast hmod
  rw [accuracyOfFraction]
  split
  · rename_i hzero
    have hwhole : (n : ℚ) / d = (n / d : Nat) := by
      rw [hzero, mul_zero, Nat.cast_zero, zero_div, add_zero] at hvalue
      exact mul_left_cancel₀ two_ne_zero hvalue
    rw [hwhole]
    exact extends_exact _
  · rename_i hrest
    have hpos : 0 < ((2 * (n % d) : Nat) : ℚ) / d := by
      apply div_pos _ hd'
      exact_mod_cast (by omega : 0 < 2 * (n % d))
    rcases lt_trichotomy (2 * (n % d)) d with hlt | heq | hgt
    · rw [compare_lt_iff_lt.mpr hlt]
      have hone : ((2 * (n % d) : Nat) : ℚ) / d < 1 := by
        rw [div_lt_one hd']
        exact_mod_cast hlt
      generalize ((2 * (n % d) : Nat) : ℚ) / d = x at hvalue hpos hone
      apply extends_of_bounds <;> rw [hvalue] <;> simp [ExtendedMantissa.ofMantissaAndAccuracy]
      · linarith
      · linarith
      · simp [hpos.ne']
    · rw [compare_eq_iff_eq.mpr heq]
      rw [heq, div_self hd'.ne'] at hvalue
      apply extends_of_bounds <;> rw [hvalue] <;> simp [ExtendedMantissa.ofMantissaAndAccuracy]
    · rw [compare_gt_iff_gt.mpr hgt]
      have hone : 1 < ((2 * (n % d) : Nat) : ℚ) / d := by
        rw [one_lt_div hd']
        exact_mod_cast hgt
      generalize ((2 * (n % d) : Nat) : ℚ) / d = x at hvalue htwo hone
      apply extends_of_bounds <;> rw [hvalue] <;> simp [ExtendedMantissa.ofMantissaAndAccuracy]
      · linarith
      · linarith
      · simp [hone.ne]

theorem signed_div (s s' : Sign) (p q : ℚ) :
    signed (s / s') (p / q) = signed s p / signed s' q := by
  cases s <;> cases s'
  · exact (neg_div_neg_eq p q).symm
  · exact (neg_div q p).symm
  · exact (div_neg p).symm
  · rfl

/-- The exponent that division works at leaves enough bits in the quotient. -/
theorem fine_division {m m' : Nat} {e e' t : ℤ} (hm : 0 < m) (hm' : 0 < m')
    (ht : t = min (e - e') (max (m.log2 + e - (m'.log2 + e') - 53) (-1074))) :
    Fine (m <<< (e - e' - t).toNat / m') t := by
  by_cases hleast : t ≤ -1074
  · exact .inr hleast
  left
  have hlow := Nat.log2_self_le hm.ne'
  have hhigh : m' < 2 ^ (m'.log2 + 1) := Nat.lt_log2_self
  have hshift : 53 + m'.log2 ≤ m.log2 + (e - e' - t).toNat := by omega
  rw [Nat.le_div_iff_mul_le hm', Nat.shiftLeft_eq]
  calc 2 ^ 52 * m' ≤ 2 ^ 52 * 2 ^ (m'.log2 + 1) := Nat.mul_le_mul_left _ hhigh.le
    _ = 2 ^ (53 + m'.log2) := by rw [← Nat.pow_add]; congr 1; omega
    _ ≤ 2 ^ (m.log2 + (e - e' - t).toNat) := Nat.pow_le_pow_right two_pos hshift
    _ = 2 ^ m.log2 * 2 ^ (e - e' - t).toNat := Nat.pow_add ..
    _ ≤ m * 2 ^ (e - e' - t).toNat := Nat.mul_le_mul_right _ hlow

theorem targetExponent_sub (m m' : Nat) (e e' : ℤ) :
    Format.binary64.targetExponent (totalExponent m e - totalExponent m' e') =
      max (m.log2 + e - (m'.log2 + e') - 53) (-1074) := by
  simp only [Format.targetExponent, totalExponent, Format.mantissaBits, Format.minExponent]
  omega

theorem div_finite_nearest (s s' : Sign) {m m' : Nat} (e e' : ℤ) (hm : 0 < m) (hm' : 0 < m') :
    Stands (UnpackedFloat.div .binary64 (.finite s m e hm) (.finite s' m' e' hm'))
      (nearest (signed s (m * 2 ^ e) / signed s' (m' * 2 ^ e'))) := by
  generalize ht : min (e - e') (max (m.log2 + e - (m'.log2 + e') - 53) (-1074)) = t
  have hcore : divCore .binary64 m e m' e' =
      (m <<< (e - e' - t).toNat / m', t,
        accuracyOfFraction (m <<< (e - e' - t).toNat % m') m') := by
    rw [divCore, targetExponent_sub, ht]
  have hrounded := roundWithAccuracy_nearest (extends_division (m <<< (e - e' - t).toNat) hm')
    (fine_division hm hm' ht.symm) (s / s')
  have hpower : (2 : ℚ) ^ (e - e' - t).toNat * 2 ^ t = 2 ^ e / 2 ^ e' := by
    rw [← zpow_natCast, ← zpow_add₀ two_ne_zero, ← zpow_sub₀ two_ne_zero]
    congr 1
    omega
  have hvalue : ((m <<< (e - e' - t).toNat : Nat) : ℚ) / m' * 2 ^ t =
      m * 2 ^ e / (m' * 2 ^ e') := by
    rw [Nat.shiftLeft_eq]
    push_cast
    rw [div_mul_eq_mul_div, mul_assoc, hpower, mul_div_assoc', div_div, mul_comm (2 ^ e')]
  rw [hvalue, signed_div] at hrounded
  rw [UnpackedFloat.div, hcore]
  exact hrounded

theorem div_nearest (hu : Stands u p) (hv : Stands v q) (hq : q ≠ 0) :
    Stands (UnpackedFloat.div .binary64 u v) (nearest (p / q)) := by
  cases hv with
  | zero s' => exact absurd rfl hq
  | finite s' hm' h' => cases hu with
    | zero s =>
        rw [zero_div, nearest_zero]
        exact .zero _
    | finite s hm h => exact div_finite_nearest s s' _ _ hm hm'

theorem CanonicalAt.mul_two_pow_lt {m m' : Nat} {e e' : ℤ} (h : CanonicalAt m e)
    (h' : CanonicalAt m' e') (hlt : e < e') : (m : ℚ) * 2 ^ e < m' * 2 ^ e' := by
  have hmin := h.le_exponent
  have hm := h.mantissa_lt
  have hm' : 2 ^ 52 ≤ m' := h'.normal_or.resolve_right (by omega)
  calc (m : ℚ) * 2 ^ e < (2 ^ 53 : Nat) * 2 ^ e :=
        mul_lt_mul_of_pos_right (Nat.cast_lt.mpr hm) (two_pow_pos e)
    _ = 2 ^ (e + 53) := natCast_mul_two_pow 53 e
    _ ≤ 2 ^ (e' + 52) := zpow_le_zpow_right₀ one_le_two (by omega)
    _ = (2 ^ 52 : Nat) * 2 ^ e' := (natCast_mul_two_pow 52 e').symm
    _ ≤ m' * 2 ^ e' := mul_le_mul_of_nonneg_right (Nat.cast_le.mpr hm') (two_pow_pos e').le

theorem compare_mul_two_pow {m m' : Nat} {e e' : ℤ} (h : CanonicalAt m e)
    (h' : CanonicalAt m' e') :
    (compare e e').then (compare m m') = compare ((m : ℚ) * 2 ^ e) (m' * 2 ^ e') := by
  rcases lt_trichotomy e e' with hlt | rfl | hgt
  · rw [compare_lt_iff_lt.mpr hlt, compare_lt_iff_lt.mpr (h.mul_two_pow_lt h' hlt)]
    rfl
  · rw [compare_eq_iff_eq.mpr rfl, Ordering.eq_then]
    rcases lt_trichotomy m m' with hlt | rfl | hgt
    · rw [compare_lt_iff_lt.mpr hlt, compare_lt_iff_lt.mpr]
      exact mul_lt_mul_of_pos_right (Nat.cast_lt.mpr hlt) (two_pow_pos e)
    · rw [compare_eq_iff_eq.mpr rfl, compare_eq_iff_eq.mpr rfl]
    · rw [compare_gt_iff_gt.mpr hgt, compare_gt_iff_gt.mpr]
      exact mul_lt_mul_of_pos_right (Nat.cast_lt.mpr hgt) (two_pow_pos e)
  · rw [compare_gt_iff_gt.mpr hgt, compare_gt_iff_gt.mpr (h'.mul_two_pow_lt h hgt)]
    rfl

theorem swap_compare (p q : ℚ) : (compare p q).swap = compare (-p) (-q) := by
  rcases lt_trichotomy p q with hlt | rfl | hgt
  · rw [compare_lt_iff_lt.mpr hlt, compare_gt_iff_gt.mpr (neg_lt_neg hlt)]
    rfl
  · rw [compare_eq_iff_eq.mpr rfl, compare_eq_iff_eq.mpr rfl]
    rfl
  · rw [compare_gt_iff_gt.mpr hgt, compare_lt_iff_lt.mpr (neg_lt_neg hgt)]
    rfl

theorem signed_positive_pos {m : Nat} (hm : 0 < m) (e : ℤ) : 0 < signed .positive (m * 2 ^ e) :=
  mul_pos (Nat.cast_pos.mpr hm) (two_pow_pos e)

theorem signed_negative_neg {m : Nat} (hm : 0 < m) (e : ℤ) : signed .negative (m * 2 ^ e) < 0 :=
  neg_lt_zero.mpr (signed_positive_pos hm e)

theorem compare_eq (hu : Stands u p) (hv : Stands v q) :
    UnpackedFloat.compare u v = some (compare p q) := by
  cases hu with
  | zero s => cases hv with
    | zero s' => rw [compare_eq_iff_eq.mpr rfl, UnpackedFloat.compare]
    | finite s' hm' h' => cases s' with
      | positive =>
          rw [compare_lt_iff_lt.mpr (signed_positive_pos hm' _), UnpackedFloat.compare]
      | negative =>
          rw [compare_gt_iff_gt.mpr (signed_negative_neg hm' _), UnpackedFloat.compare]
  | finite s hm h => cases s with
    | positive => cases hv with
      | zero s' => rw [compare_gt_iff_gt.mpr (signed_positive_pos hm _), UnpackedFloat.compare]
      | finite s' hm' h' => cases s' with
        | positive =>
            rw [signed, signed, ← compare_mul_two_pow h h', UnpackedFloat.compare]
        | negative =>
            rw [compare_gt_iff_gt.mpr
              ((signed_negative_neg hm' _).trans (signed_positive_pos hm _)),
              UnpackedFloat.compare]
    | negative => cases hv with
      | zero s' => rw [compare_lt_iff_lt.mpr (signed_negative_neg hm _), UnpackedFloat.compare]
      | finite s' hm' h' => cases s' with
        | positive =>
            rw [compare_lt_iff_lt.mpr
              ((signed_negative_neg hm _).trans (signed_positive_pos hm' _)),
              UnpackedFloat.compare]
        | negative =>
            rw [signed, signed, ← swap_compare, ← compare_mul_two_pow h h',
              UnpackedFloat.compare]

theorem lt_eq_true_iff (hu : Stands u p) (hv : Stands v q) :
    UnpackedFloat.lt u v = true ↔ p < q := by
  rw [UnpackedFloat.lt, compare_eq hu hv, ← compare_lt_iff_lt]
  simp

theorem le_eq_true_iff (hu : Stands u p) (hv : Stands v q) :
    UnpackedFloat.le u v = true ↔ p ≤ q := by
  rw [UnpackedFloat.le, compare_eq hu hv, ← compare_le_iff_le, Option.any_some,
    Ordering.isLE_iff_ne_gt]

end ScalableCongestion.Binary64
