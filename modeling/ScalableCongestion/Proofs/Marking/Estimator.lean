import ScalableCongestion.Proofs.Binary64.Arithmetic

/-! The estimator on rationals. Its doubles stand for what its formula gives when
every operation rounds to nearest, and no rounding leaves the unit interval. The
critical one is the sum: the share kept of the old estimate and the gain may sum
to more than one, but by less than rounding takes away. -/
namespace ScalableCongestion
open Binary64

variable {a f g q : ℚ}

theorem InUnit.mul (ha : InUnit a) (hg : InUnit g) : InUnit (a * g) :=
  ⟨mul_nonneg ha.1 hg.1, mul_le_one₀ ha.2 hg.1 hg.2⟩

theorem InUnit.complement (hg : InUnit g) : InUnit (1 - g) :=
  ⟨sub_nonneg.mpr hg.2, sub_le_self 1 hg.1⟩

theorem InUnit.abs_le (h : InUnit q) : |q| ≤ 2 ^ (1023 : ℤ) :=
  abs_le_of_le_two_pow h.1 (h.2.trans (by norm_num))

theorem ulp_le_of_lt_one (hpos : 0 < q) (hlt : q < 1) : ulp q ≤ 2 ^ (-53 : ℤ) := by
  apply zpow_le_zpow_right₀ one_le_two
  have hlog : Int.log 2 |q| < 0 := by
    apply (Int.lt_zpow_iff_log_lt (by norm_num) (abs_pos.mpr hpos.ne')).mp
    rw [abs_of_pos hpos, zpow_zero]
    exact hlt
  unfold unitExponent
  omega

/-- The complement of a gain is rounded by at most a quarter of the unit at one. -/
theorem nearest_complement_add_le (hg : InUnit g) : nearest (1 - g) + g ≤ 1 + 2 ^ (-54 : ℤ) := by
  have hquarter : (0 : ℚ) < 2 ^ (-54 : ℤ) := two_pow_pos _
  rcases hg.1.eq_or_lt with rfl | hpos
  · rw [sub_zero, nearest_of_representable representable_one]
    linarith
  rcases hg.2.eq_or_lt with rfl | hlt
  · rw [sub_self, nearest_zero]
    linarith
  have hulp := ulp_le_of_lt_one (sub_pos.mpr hlt) (sub_lt_self 1 hpos)
  have hmoved := (abs_le.mp (abs_nearest_sub_le (1 - g))).2
  have hhalf : ulp (1 - g) / 2 ≤ 2 ^ (-54 : ℤ) := by
    calc ulp (1 - g) / 2 ≤ 2 ^ (-53 : ℤ) / 2 := div_le_div_of_nonneg_right hulp zero_le_two
      _ = 2 ^ (-54 : ℤ) := by norm_num
  calc nearest (1 - g) + g = 1 + (nearest (1 - g) - (1 - g)) := by ring
    _ ≤ 1 + 2 ^ (-54 : ℤ) := add_le_add_right (hmoved.trans hhalf) 1

theorem nearest_le_one (h : q ≤ 1 + 2 ^ (-54 : ℤ)) : nearest q ≤ 1 := by
  have hunit : unitExponent (1 + 2 ^ (-54 : ℤ)) = -52 := by
    apply unitExponent_eq <;> norm_num
  have hcount : roundEven ((1 + 2 ^ (-54 : ℤ)) / 2 ^ (-52 : ℤ)) = 2 ^ 52 := by
    apply roundEven_eq_of_lt
    norm_num
  have hround : nearest (1 + 2 ^ (-54 : ℤ)) = 1 := by
    rw [nearest, ulp, hunit, hcount]
    norm_num
  exact (nearest_mono h).trans_eq hround

namespace Estimator

def share (marked acked : UInt32) : ℚ :=
  if acked = 0 then 0 else min (nearest (marked.toNat / acked.toNat)) 1

def advanced (alpha gain share : ℚ) : ℚ :=
  nearest (nearest (nearest (1 - gain) * alpha) + nearest (gain * share))

theorem share_inUnit (marked acked : UInt32) : InUnit (share marked acked) := by
  unfold share
  split
  · exact ⟨le_rfl, zero_le_one⟩
  · refine ⟨le_min (le_nearest representable_zero ?_) zero_le_one, min_le_right _ _⟩
    exact div_nonneg (Nat.cast_nonneg _) (Nat.cast_nonneg _)

theorem denotes_quotient (marked : UInt32) {acked : UInt32} (hacked : acked ≠ 0) :
    Denotes (marked.toFloat / acked.toFloat) (nearest (marked.toNat / acked.toNat)) := by
  have hacked' : acked.toNat ≠ 0 := fun h => hacked (UInt32.toNat_inj.mp h)
  have hone : (1 : ℚ) ≤ acked.toNat := by exact_mod_cast Nat.pos_of_ne_zero hacked'
  have hmarked : (marked.toNat : ℚ) ≤ 2 ^ 64 := by
    exact_mod_cast marked.toNat_lt.le.trans (by norm_num)
  have hnonneg : (0 : ℚ) ≤ marked.toNat := Nat.cast_nonneg _
  apply denotes_div (denotes_toFloat marked) (denotes_toFloat acked)
  · exact Nat.cast_ne_zero.mpr hacked'
  · apply abs_le_of_le_two_pow (div_nonneg hnonneg (zero_le_one.trans hone))
    exact ((div_le_self hnonneg hone).trans hmarked).trans (by norm_num)

theorem denotes_fraction (marked acked : UInt32) :
    Denotes (fraction marked acked) (share marked acked) := by
  unfold fraction share
  split
  · exact denotes_zero
  · rename_i hacked
    have hquotient := denotes_quotient marked hacked
    have hlt := lt_iff denotes_one hquotient
    dsimp only
    split
    · rename_i hlarge
      rw [min_eq_right (hlt.mp hlarge).le]
      exact denotes_one
    · rename_i hsmall
      rw [min_eq_left (not_lt.mp fun h => hsmall (hlt.mpr h))]
      exact hquotient

theorem advanced_nonneg (hg : InUnit g) (ha : InUnit a) (hf : InUnit f) : 0 ≤ advanced a g f := by
  apply le_nearest representable_zero
  exact add_nonneg ((hg.complement.nearest.mul ha).nearest.1) ((hg.mul hf).nearest.1)

theorem kept_add_taken_le (hg : InUnit g) (hg' : Representable g) (ha : InUnit a)
    (hf : InUnit f) :
    nearest (nearest (1 - g) * a) + nearest (g * f) ≤ 1 + 2 ^ (-54 : ℤ) := by
  have hkept : nearest (nearest (1 - g) * a) ≤ nearest (1 - g) := by
    apply nearest_le (representable_nearest _)
    exact mul_le_of_le_one_right hg.complement.nearest.1 ha.2
  have htaken : nearest (g * f) ≤ g := by
    apply nearest_le hg'
    exact mul_le_of_le_one_right hg.1 hf.2
  exact (add_le_add hkept htaken).trans (nearest_complement_add_le hg)

theorem advanced_inUnit (hg : InUnit g) (hg' : Representable g) (ha : InUnit a) (hf : InUnit f) :
    InUnit (advanced a g f) :=
  ⟨advanced_nonneg hg ha hf, nearest_le_one (kept_add_taken_le hg hg' ha hf)⟩

theorem share_mono {marked marked' : UInt32} (h : marked ≤ marked') (acked : UInt32) :
    share marked acked ≤ share marked' acked := by
  unfold share
  split
  · exact le_rfl
  · apply min_le_min_right
    apply nearest_mono
    apply div_le_div_of_nonneg_right _ (Nat.cast_nonneg _)
    exact_mod_cast UInt32.le_iff_toNat_le.mp h

/-- Every operation of an update keeps the order, and so does its rounding: the
weights of the old estimate and of the share are not negative. -/
theorem advanced_mono (hg : InUnit g) {a' f' : ℚ} (ha : a ≤ a') (hf : f ≤ f') :
    advanced a g f ≤ advanced a' g f' := by
  have hkept : nearest (1 - g) * a ≤ nearest (1 - g) * a' :=
    mul_le_mul_of_nonneg_left ha hg.complement.nearest.1
  have htaken : g * f ≤ g * f' := mul_le_mul_of_nonneg_left hf hg.1
  exact nearest_mono (add_le_add (nearest_mono hkept) (nearest_mono htaken))

theorem denotes_advance {e : Estimator} (ha : Denotes e.alpha a) (hg : Denotes e.gain g)
    (ha' : InUnit a) (hg' : InUnit g) (marked acked : UInt32) :
    Denotes (e.advance marked acked).alpha (advanced a g (share marked acked)) := by
  have hshare := share_inUnit marked acked
  have hcomplement := denotes_sub denotes_one hg hg'.complement.abs_le
  have hkept := hg'.complement.nearest.mul ha'
  have htaken := hg'.mul hshare
  have hsum := kept_add_taken_le hg' hg.representable ha' hshare
  apply denotes_add (denotes_mul hcomplement ha hkept.abs_le)
    (denotes_mul hg (denotes_fraction marked acked) htaken.abs_le)
  apply abs_le_of_le_two_pow (add_nonneg hkept.nearest.1 htaken.nearest.1)
  exact hsum.trans (by norm_num)

theorem advance_inUnit {e : Estimator} (halpha : inUnit e.alpha = true)
    (hgain : inUnit e.gain = true) (marked acked : UInt32) :
    inUnit (e.advance marked acked).alpha = true := by
  obtain ⟨a, ha, ha'⟩ := inUnit_iff.mp halpha
  obtain ⟨g, hg, hg'⟩ := inUnit_iff.mp hgain
  exact inUnit_iff.mpr ⟨_, denotes_advance ha hg ha' hg' marked acked,
    advanced_inUnit hg' hg.representable ha' (share_inUnit marked acked)⟩

end Estimator

end ScalableCongestion
