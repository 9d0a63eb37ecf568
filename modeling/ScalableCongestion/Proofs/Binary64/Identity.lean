import ScalableCongestion.Decimal.Binary
import ScalableCongestion.Proofs.Binary64.Arithmetic

/-! Which double stands for a rational. It is the only one for any number but
zero, which has two, and its sign, exponent and mantissa are those that its bits
are split into. -/
namespace ScalableCongestion
open Float.Model (Format UnpackedFloat)
open Float.Model.UnpackedFloat

namespace Binary64

/-! ## Words and their parts -/

theorem toNat_fractionBits (word : BitVec 64) :
    (fractionBits word).toNat = word.toNat % 2 ^ 52 := by
  unfold fractionBits unpackMantissa
  rw [BitVec.toNat_cast, BitVec.extractLsb_toNat]
  rfl

theorem toNat_exponentBits (word : BitVec 64) :
    (exponentBits word).toNat = word.toNat / 2 ^ 52 % 2 ^ 11 := by
  unfold exponentBits unpackExponent
  rw [BitVec.toNat_cast, BitVec.extractLsb_toNat, Nat.shiftRight_eq_div_pow]
  rfl

theorem toNat_signBit (word : BitVec 64) : (signBit word).toNat = word.toNat / 2 ^ 63 := by
  have hlt := word.isLt
  unfold signBit unpackSign
  rw [BitVec.toNat_cast, BitVec.extractLsb_toNat, Nat.shiftRight_eq_div_pow]
  change word.toNat / 2 ^ 63 % 2 ^ 1 = _
  omega

theorem toBitVec_ofBitVec : ∀ b : BitVec 1, (Sign.ofBitVec b).toBitVec = b := by decide

theorem packComponents_parts (word : BitVec 64) :
    packComponents .binary64 (Sign.ofBitVec (signBit word)) (exponentBits word)
        (fractionBits word) =
      word := by
  have hlt := word.isLt
  have hfraction := (fractionBits word).isLt
  have hexponent := (exponentBits word).isLt
  apply BitVec.eq_of_toNat_eq
  change ((Sign.ofBitVec (signBit word)).toBitVec ++ exponentBits word ++
    fractionBits word).toNat = _
  rw [toBitVec_ofBitVec, BitVec.toNat_append, BitVec.toNat_append,
    ← Nat.shiftLeft_add_eq_or_of_lt hfraction, ← Nat.shiftLeft_add_eq_or_of_lt hexponent,
    Nat.shiftLeft_eq, Nat.shiftLeft_eq, toNat_fractionBits, toNat_exponentBits, toNat_signBit]
  omega

/-- What a word unpacks to, told by its parts. -/
inductive Unpacks (word : BitVec 64) : UnpackedFloat → Prop where
  | infinity (s : Sign) : Unpacks word (.infinity s)
  | notANumber : Unpacks word .notANumber
  | zero (hexponent : exponentBits word = 0#11) (hfraction : fractionBits word = 0#52) :
    Unpacks word (.zero (Sign.ofBitVec (signBit word)))
  | subnormal (hexponent : exponentBits word = 0#11) (hpos : 0 < (fractionBits word).toNat) :
    Unpacks word (.finite (Sign.ofBitVec (signBit word)) (fractionBits word).toNat (-1074) hpos)
  | normal (hlow : 0 < (exponentBits word).toNat) (hhigh : (exponentBits word).toNat < 2047)
    (hpos : 0 < 2 ^ 52 + (fractionBits word).toNat) :
    Unpacks word (.finite (Sign.ofBitVec (signBit word)) (2 ^ 52 + (fractionBits word).toNat)
      ((exponentBits word).toNat - 1075) hpos)

theorem unpacks (word : BitVec 64) : Unpacks word (unpack .binary64 word) := by
  by_cases hhigh : exponentBits word = -1#11
  · unfold exponentBits at hhigh
    simp only [unpack]
    rw [if_pos hhigh]
    split
    · exact .infinity _
    · exact .notANumber
  by_cases hlow : exponentBits word = 0#11
  · by_cases hzero : fractionBits word = 0#52
    · have hunpack : unpack .binary64 word = .zero (Sign.ofBitVec (signBit word)) := by
        unfold exponentBits at hlow
        unfold fractionBits at hzero
        simp only [unpack]
        rw [hlow, if_neg (by decide), if_pos rfl, dif_pos hzero]
        rfl
      rw [hunpack]
      exact .zero hlow hzero
    · have hpos : 0 < (fractionBits word).toNat :=
        Nat.pos_of_ne_zero fun h => hzero (BitVec.eq_of_toNat_eq h)
      rw [unpack_subnormal hlow hpos]
      exact .subnormal hlow hpos
  · have hexponent := (exponentBits word).isLt
    have hmin : (exponentBits word).toNat ≠ 0 := fun h => hlow (BitVec.eq_of_toNat_eq h)
    have hmax : (exponentBits word).toNat ≠ 2047 := fun h => hhigh (BitVec.eq_of_toNat_eq h)
    rw [unpack_normal hlow hhigh (by omega)]
    exact .normal (by omega) (by omega) _

theorem pack_unpack {word : BitVec 64} {q : ℚ} (h : Stands (unpack .binary64 word) q) :
    pack .binary64 (unpack .binary64 word) = word := by
  have hparts := packComponents_parts word
  have hfraction := (fractionBits word).isLt
  have hcases := unpacks word
  generalize unpack .binary64 word = u at h hcases
  cases hcases with
  | infinity s => cases h
  | notANumber => cases h
  | zero hexponent hzero =>
      rw [hexponent, hzero] at hparts
      exact hparts
  | subnormal hexponent hpos =>
      rw [hexponent] at hparts
      rw [pack_subnormal _ hpos hfraction, BitVec.ofNat_toNat, BitVec.setWidth_eq]
      exact hparts
  | normal hlow hhigh hpos =>
      have hback : (((exponentBits word).toNat : ℤ) - 1075 + 1075).toNat =
          (exponentBits word).toNat := by
        omega
      have hmantissa :
          BitVec.ofNat 52 (2 ^ 52 + (fractionBits word).toNat) = fractionBits word := by
        apply BitVec.eq_of_toNat_eq
        rw [BitVec.toNat_ofNat]
        omega
      rw [pack_normal _ _ ⟨by omega, by omega, .inl (by omega)⟩ (by omega) (by omega), hback,
        hmantissa, BitVec.ofNat_toNat, BitVec.setWidth_eq]
      exact hparts

theorem mul_two_pow_lt_of_le {m : Nat} {e : ℤ} (hm : m < 2 ^ 53) (he : e ≤ 971) :
    (m : ℚ) * 2 ^ e < 2 ^ (1024 : ℤ) := by
  calc (m : ℚ) * 2 ^ e < (2 ^ 53 : Nat) * 2 ^ e :=
        mul_lt_mul_of_pos_right (Nat.cast_lt.mpr hm) (two_pow_pos e)
    _ = 2 ^ (e + 53) := natCast_mul_two_pow 53 e
    _ ≤ 2 ^ (1024 : ℤ) := zpow_le_zpow_right₀ one_le_two (by omega)

theorem Stands.abs_lt {word : BitVec 64} {q : ℚ} (h : Stands (unpack .binary64 word) q) :
    |q| < 2 ^ (1024 : ℤ) := by
  have hfraction := (fractionBits word).isLt
  have hcases := unpacks word
  generalize unpack .binary64 word = u at h hcases
  cases h with
  | zero s =>
      rw [abs_zero]
      exact two_pow_pos 1024
  | finite s hm h =>
      rw [abs_signed s (mul_nonneg (Nat.cast_nonneg _) (two_pow_pos _).le)]
      cases hcases with
      | subnormal hexponent hpos => exact mul_two_pow_lt_of_le (by omega) (by omega)
      | normal hlow hhigh hpos => exact mul_two_pow_lt_of_le (by omega) (by omega)

/-! ## Canonical forms and their rationals -/

theorem CanonicalAt.unique {m m' : Nat} {e e' : ℤ} (h : CanonicalAt m e) (h' : CanonicalAt m' e')
    (heq : (m : ℚ) * 2 ^ e = m' * 2 ^ e') : m = m' ∧ e = e' := by
  have hcompare := compare_mul_two_pow h h'
  rw [compare_eq_iff_eq.mpr heq, Ordering.then_eq_eq] at hcompare
  exact ⟨compare_eq_iff_eq.mp hcompare.2, compare_eq_iff_eq.mp hcompare.1⟩

theorem Stands.exists_finite {u : UnpackedFloat} {q : ℚ} (h : Stands u q) (hq : q ≠ 0) :
    ∃ s m e, ∃ hm : 0 < m, u = .finite s m e hm ∧ CanonicalAt m e ∧ q = signed s (m * 2 ^ e) := by
  cases h with
  | zero s => exact absurd rfl hq
  | finite s hm h => exact ⟨s, _, _, hm, rfl, h, rfl⟩

theorem signed_inj {s s' : Sign} {p q : ℚ} (hp : 0 < p) (hq : 0 < q)
    (h : signed s p = signed s' q) : s = s' ∧ p = q := by
  cases s <;> cases s' <;> simp only [signed] at h
  · exact ⟨rfl, neg_injective h⟩
  · linarith
  · linarith
  · exact ⟨rfl, h⟩

theorem Stands.unpacked_unique {u v : UnpackedFloat} {q : ℚ} (hu : Stands u q) (hv : Stands v q)
    (hq : q ≠ 0) : u = v := by
  obtain ⟨s, m, e, hm, rfl, h, hvalue⟩ := hu.exists_finite hq
  obtain ⟨s', m', e', hm', rfl, h', hvalue'⟩ := hv.exists_finite hq
  have hpos {m : Nat} {e : ℤ} (hm : 0 < m) : (0 : ℚ) < m * 2 ^ e :=
    mul_pos (Nat.cast_pos.mpr hm) (two_pow_pos e)
  obtain ⟨rfl, hsame⟩ := signed_inj (hpos hm) (hpos hm') (hvalue.symm.trans hvalue')
  obtain ⟨rfl, rfl⟩ := h.unique h' hsame
  rfl

theorem Stands.neg {u : UnpackedFloat} {q : ℚ} (h : Stands u q) : Stands u.neg (-q) := by
  cases h with
  | zero s =>
      rw [neg_zero]
      exact .zero (-s)
  | finite s hm h =>
      rw [← signed_neg]
      exact .finite (-s) hm h

theorem Stands.abs {u : UnpackedFloat} {q : ℚ} (h : Stands u q) : Stands u.abs |q| := by
  cases h with
  | zero s =>
      rw [abs_zero]
      exact .zero .positive
  | finite s hm h =>
      rw [abs_signed s (mul_nonneg (Nat.cast_nonneg _) (two_pow_pos _).le)]
      exact .finite .positive hm h

theorem Stands.isFinite {u : UnpackedFloat} {q : ℚ} (h : Stands u q) : u.isFinite = true := by
  cases h <;> rfl

end Binary64

open Binary64

variable {x y : Float} {p q : ℚ}

/-! ## Doubles -/

theorem Denotes.abs_lt (h : Denotes x q) : |q| < 2 ^ (1024 : ℤ) := Stands.abs_lt h

theorem denotes_of_stands {u : UnpackedFloat} (h : Stands u q) (hsmall : |q| < 2 ^ (1024 : ℤ)) :
    Denotes (.ofModel (.pack u)) q := by
  change Stands (UnpackedFloat.unpack .binary64 (UnpackedFloat.pack .binary64 u)) _
  rw [unpack_pack h hsmall]
  exact h

theorem Denotes.eq_pack (h : Denotes x q) : x = .ofModel (.pack x.toModel.unpack) := by
  have hword := pack_unpack h
  obtain ⟨⟨bits, valid⟩⟩ := x
  congr 2
  exact (congrArg UInt64.ofBitVec hword).symm

theorem Denotes.eq (hx : Denotes x q) (hy : Denotes y q) (hq : q ≠ 0) : x = y := by
  rw [hx.eq_pack, hy.eq_pack, Stands.unpacked_unique hx hy hq]

theorem Denotes.neg (h : Denotes x q) : Denotes (-x) (-q) :=
  denotes_of_stands (Stands.neg h) (by rw [abs_neg]; exact h.abs_lt)

theorem Denotes.abs (h : Denotes x q) : Denotes x.abs |q| :=
  denotes_of_stands (Stands.abs h) (by rw [abs_abs]; exact h.abs_lt)

theorem isFinite_iff : x.isFinite = true ↔ ∃ q, Denotes x q := by
  constructor
  · intro h
    change (unpack .binary64 x.toModel.toBits.toBitVec).isFinite = true at h
    rcases exists_stands_unpack x.toModel.toBits.toBitVec with hstands | ⟨s, hs⟩ | hnone
    · exact hstands
    · rw [hs] at h
      cases h
    · rw [hnone] at h
      cases h
  · rintro ⟨q, h⟩
    exact Stands.isFinite h

/-! ## The bits of a double -/

def Binary.magnitude (b : Binary) : ℚ := b.mantissa * 2 ^ b.exponent

def wordOf (x : Float) : BitVec 64 := x.toModel.toBits.toBitVec

theorem ofFloat_eq (x : Float) :
    Binary.ofFloat x =
      if (exponentBits (wordOf x)).toNat = 0 then
        ⟨(signBit (wordOf x)).toNat == 1, (fractionBits (wordOf x)).toNat, -1074⟩
      else
        ⟨(signBit (wordOf x)).toNat == 1, (fractionBits (wordOf x)).toNat + 2 ^ 52,
          (exponentBits (wordOf x)).toNat - 1075⟩ := by
  rw [toNat_exponentBits, toNat_fractionBits, toNat_signBit]
  rfl

theorem ofFloat_subnormal (hexponent : exponentBits (wordOf x) = 0#11) :
    Binary.ofFloat x =
      ⟨(signBit (wordOf x)).toNat == 1, (fractionBits (wordOf x)).toNat, -1074⟩ := by
  rw [ofFloat_eq, if_pos (by rw [hexponent]; rfl)]

theorem ofFloat_normal (hlow : 0 < (exponentBits (wordOf x)).toNat) :
    Binary.ofFloat x =
      ⟨(signBit (wordOf x)).toNat == 1, (fractionBits (wordOf x)).toNat + 2 ^ 52,
        (exponentBits (wordOf x)).toNat - 1075⟩ := by
  rw [ofFloat_eq, if_neg (by omega)]

theorem Denotes.magnitude (h : Denotes x q) : |q| = (Binary.ofFloat x).magnitude := by
  have hcases := unpacks (wordOf x)
  change Stands (unpack .binary64 (wordOf x)) q at h
  generalize unpack .binary64 (wordOf x) = u at h hcases
  cases h with
  | zero s => cases hcases with
    | zero hexponent hzero =>
        rw [ofFloat_subnormal hexponent, Binary.magnitude, hzero]
        simp
  | finite s hm h =>
      rw [abs_signed s (mul_nonneg (Nat.cast_nonneg _) (two_pow_pos _).le)]
      cases hcases with
      | subnormal hexponent hpos => rw [ofFloat_subnormal hexponent, Binary.magnitude]
      | normal hlow hhigh hpos => rw [ofFloat_normal hlow, Binary.magnitude, Nat.add_comm]

theorem Denotes.mantissa_eq_zero_iff (h : Denotes x q) :
    (Binary.ofFloat x).mantissa = 0 ↔ q = 0 := by
  rw [← abs_eq_zero (a := q), h.magnitude, Binary.magnitude, mul_eq_zero,
    or_iff_left (two_pow_pos _).ne', Nat.cast_eq_zero]

theorem Binary64.Unpacks.eq_signed {word : BitVec 64} {u : UnpackedFloat} (h : Unpacks word u)
    (hfinite : u.isFinite = true) : u = if (signBit word).toNat == 1 then u.abs.neg else u.abs := by
  have hbits : ∀ b : BitVec 1, b = 0#1 ∨ b = 1#1 := by decide
  cases h with
  | infinity s => cases hfinite
  | notANumber => cases hfinite
  | _ => rcases hbits (signBit word) with hsign | hsign <;> rw [hsign] <;> rfl

theorem Denotes.eq_signed (h : Denotes x q) :
    x = if (Binary.ofFloat x).negative then -x.abs else x.abs := by
  have hsign : (Binary.ofFloat x).negative = ((signBit (wordOf x)).toNat == 1) := by
    rw [ofFloat_eq]
    split <;> rfl
  have habs : x.abs.toModel.unpack = x.toModel.unpack.abs := unpack_pack (Stands.abs h) h.abs.abs_lt
  have hneg : -x.abs = .ofModel (.pack x.toModel.unpack.abs.neg) := by
    rw [← habs]
    rfl
  have hunpacks : Unpacks (wordOf x) x.toModel.unpack := unpacks (wordOf x)
  have hunpacked := hunpacks.eq_signed (Stands.isFinite h)
  have hwhole := h.eq_pack
  rw [← hsign] at hunpacked
  split
  · next hnegative =>
      rw [if_pos hnegative] at hunpacked
      rw [hneg, ← hunpacked]
      exact hwhole
  · next hpositive =>
      rw [if_neg hpositive] at hunpacked
      change x = .ofModel (.pack x.toModel.unpack.abs)
      rw [← hunpacked]
      exact hwhole

end ScalableCongestion
