import ScalableCongestion.Proofs.Binary64.Operations

/-! Packing canonical forms into 64 bits loses nothing below 2^1024, and the
bits of a double unpack to a canonical form unless they hold an infinity or no
number at all. -/
namespace ScalableCongestion.Binary64
open Float.Model (Format UnpackedFloat)
open Float.Model.UnpackedFloat

def fractionBits (word : BitVec 64) : BitVec 52 := @unpackMantissa .binary64 word

def exponentBits (word : BitVec 64) : BitVec 11 := @unpackExponent .binary64 word

def signBit (word : BitVec 64) : BitVec 1 := @unpackSign .binary64 word

theorem fractionBits_packComponents (s : Sign) (exponent : BitVec 11) (fraction : BitVec 52) :
    fractionBits (packComponents .binary64 s exponent fraction) = fraction :=
  unpackMantissa_packComponents

theorem exponentBits_packComponents (s : Sign) (exponent : BitVec 11) (fraction : BitVec 52) :
    exponentBits (packComponents .binary64 s exponent fraction) = exponent :=
  unpackExponent_packComponents

theorem signBit_packComponents (s : Sign) (exponent : BitVec 11) (fraction : BitVec 52) :
    signBit (packComponents .binary64 s exponent fraction) = s.toBitVec :=
  @unpackSign_packComponents .binary64 s exponent fraction

theorem toNat_implicit (fraction : BitVec 52) :
    (1#1 ++ fraction).toNat = 2 ^ 52 + fraction.toNat := by
  rw [BitVec.toNat_append, ← Nat.shiftLeft_add_eq_or_of_lt fraction.isLt]
  rfl

theorem unpack_normal {word : BitVec 64} (hlow : exponentBits word ≠ 0#11)
    (hhigh : exponentBits word ≠ -1#11) (h : 0 < 2 ^ 52 + (fractionBits word).toNat) :
    unpack .binary64 word =
      .finite (Sign.ofBitVec (signBit word)) (2 ^ 52 + (fractionBits word).toNat)
        ((exponentBits word).toNat - 1075) h := by
  unfold exponentBits at hlow hhigh
  simp only [unpack]
  rw [if_neg hhigh, if_neg hlow]
  congr 1
  exact toNat_implicit _

theorem unpack_subnormal {word : BitVec 64} (hexponent : exponentBits word = 0#11)
    (h : 0 < (fractionBits word).toNat) :
    unpack .binary64 word =
      .finite (Sign.ofBitVec (signBit word)) (fractionBits word).toNat (-1074) h := by
  have hfraction : fractionBits word ≠ 0#52 := by
    intro hzero
    rw [hzero] at h
    exact absurd h (by decide)
  unfold exponentBits at hexponent
  unfold fractionBits at hfraction
  simp only [unpack]
  rw [hexponent, if_neg (by decide), if_pos rfl, dif_neg hfraction]
  rfl

theorem exists_stands_unpack (word : BitVec 64) :
    (∃ q, Stands (unpack .binary64 word) q) ∨ (∃ s, unpack .binary64 word = .infinity s) ∨
      unpack .binary64 word = .notANumber := by
  have hfraction := (fractionBits word).isLt
  have hexponent := (exponentBits word).isLt
  by_cases hhigh : exponentBits word = -1#11
  · right
    unfold exponentBits at hhigh
    simp only [unpack]
    rw [if_pos hhigh]
    split
    · exact .inl ⟨_, rfl⟩
    · exact .inr rfl
  left
  by_cases hlow : exponentBits word = 0#11
  · by_cases hzero : fractionBits word = 0#52
    · refine ⟨0, ?_⟩
      unfold exponentBits at hlow
      unfold fractionBits at hzero
      simp only [unpack]
      rw [hlow, if_neg (by decide), if_pos rfl, dif_pos hzero]
      exact .zero _
    · have hpos : 0 < (fractionBits word).toNat := by
        apply Nat.pos_of_ne_zero
        intro h
        exact hzero (BitVec.eq_of_toNat_eq h)
      rw [unpack_subnormal hlow hpos]
      exact ⟨_, .finite _ _ ⟨by omega, le_rfl, .inr rfl⟩⟩
  · have hpos : (exponentBits word).toNat ≠ 0 := by
      intro h
      exact hlow (BitVec.eq_of_toNat_eq h)
    rw [unpack_normal hlow hhigh (by omega)]
    exact ⟨_, .finite _ _ ⟨by omega, by omega, .inl (by omega)⟩⟩

theorem CanonicalAt.exponent_le {m : Nat} {e : ℤ} (h : CanonicalAt m e)
    (hsmall : (m : ℚ) * 2 ^ e < 2 ^ (1024 : ℤ)) : e ≤ 971 := by
  by_contra hlarge
  have hm : 2 ^ 52 ≤ m := h.normal_or.resolve_right (by omega)
  have hle : (2 : ℚ) ^ (1024 : ℤ) ≤ m * 2 ^ e := by
    calc (2 : ℚ) ^ (1024 : ℤ) ≤ 2 ^ (e + 52) := zpow_le_zpow_right₀ one_le_two (by omega)
      _ = (2 ^ 52 : Nat) * 2 ^ e := (natCast_mul_two_pow 52 e).symm
      _ ≤ m * 2 ^ e := mul_le_mul_of_nonneg_right (Nat.cast_le.mpr hm) (two_pow_pos e).le
  exact absurd hsmall (not_lt.mpr hle)

theorem abs_signed (s : Sign) {q : ℚ} (h : 0 ≤ q) : |signed s q| = q := by
  cases s with
  | positive => exact abs_of_nonneg h
  | negative => rw [signed, abs_neg, abs_of_nonneg h]

theorem CanonicalAt.log2_eq {m : Nat} {e : ℤ} (h : CanonicalAt m e) (hnormal : 2 ^ 52 ≤ m) :
    m.log2 = 52 :=
  Nat.le_antisymm (log2_le_of_lt h.mantissa_lt) (le_log2_of_two_pow_le hnormal)

theorem pack_normal (s : Sign) {m : Nat} {e : ℤ} (hm : 0 < m) (h : CanonicalAt m e)
    (hmax : e ≤ 971) (hnormal : 2 ^ 52 ≤ m) :
    pack .binary64 (.finite s m e hm) =
      packComponents .binary64 s (BitVec.ofNat 11 (e + 1075).toNat) (BitVec.ofNat 52 m) := by
  have hexponent : e + Format.binary64.exponentBias + Format.binary64.mantissaBitsWithoutImplicit
      = e + 1075 := by
    rw [add_assoc]
    rfl
  have hlog : m.log2 + 1 = Format.binary64.mantissaBits := by
    rw [h.log2_eq hnormal]
    rfl
  simp only [pack, hexponent, hlog, ↓reduceIte]
  rw [if_neg]
  change ¬2048 ≤ _
  omega

theorem pack_subnormal (s : Sign) {m : Nat} (hm : 0 < m) (hlt : m < 2 ^ 52) :
    pack .binary64 (.finite s m (-1074) hm) =
      packComponents .binary64 s 0#11 (BitVec.ofNat 52 m) := by
  have hlog : ¬m.log2 + 1 = Format.binary64.mantissaBits := by
    have hle : m.log2 ≤ 51 := log2_le_of_lt hlt
    change ¬m.log2 + 1 = 53
    omega
  simp only [pack, hlog, ↓reduceIte]
  rfl

theorem unpack_pack_normal (s : Sign) {m : Nat} {e : ℤ} (hm : 0 < m) (h : CanonicalAt m e)
    (hmax : e ≤ 971) (hnormal : 2 ^ 52 ≤ m) :
    unpack .binary64 (pack .binary64 (.finite s m e hm)) = .finite s m e hm := by
  have hlt := h.mantissa_lt
  have hmin := h.le_exponent
  have hfraction : 2 ^ 52 + (BitVec.ofNat 52 m).toNat = m := by
    rw [BitVec.toNat_ofNat]
    omega
  have hexponent : (BitVec.ofNat 11 (e + 1075).toNat).toNat = (e + 1075).toNat := by
    rw [BitVec.toNat_ofNat]
    omega
  have hback : ((e + 1075).toNat : ℤ) - 1075 = e := by omega
  rw [pack_normal s hm h hmax hnormal, unpack_normal]
  · simp only [signBit_packComponents, Sign.ofBitVec_toBitVec, fractionBits_packComponents,
      exponentBits_packComponents, hfraction, hexponent, hback]
  · rw [exponentBits_packComponents]
    intro hzero
    rw [hzero] at hexponent
    change 0 = _ at hexponent
    omega
  · rw [exponentBits_packComponents]
    intro hones
    rw [hones] at hexponent
    change 2047 = _ at hexponent
    omega
  · omega

theorem unpack_pack_subnormal (s : Sign) {m : Nat} (hm : 0 < m) (hlt : m < 2 ^ 52) :
    unpack .binary64 (pack .binary64 (.finite s m (-1074) hm)) = .finite s m (-1074) hm := by
  have hfraction : (BitVec.ofNat 52 m).toNat = m := by
    rw [BitVec.toNat_ofNat]
    omega
  rw [pack_subnormal s hm hlt, unpack_subnormal]
  · simp only [signBit_packComponents, Sign.ofBitVec_toBitVec, fractionBits_packComponents,
      hfraction]
  · exact exponentBits_packComponents s 0#11 _
  · rw [fractionBits_packComponents, hfraction]
    exact hm

theorem unpack_pack {u : UnpackedFloat} {q : ℚ} (h : Stands u q) (hsmall : |q| < 2 ^ (1024 : ℤ)) :
    unpack .binary64 (pack .binary64 u) = u := by
  cases h with
  | zero s => exact unpack_packedZero
  | finite s hm h =>
      rename_i m e
      rw [abs_signed s (mul_nonneg m.cast_nonneg (two_pow_pos e).le)] at hsmall
      by_cases hnormal : 2 ^ 52 ≤ m
      · exact unpack_pack_normal s hm h (h.exponent_le hsmall) hnormal
      · obtain rfl := h.normal_or.resolve_left hnormal
        exact unpack_pack_subnormal s hm (by omega)

end ScalableCongestion.Binary64
