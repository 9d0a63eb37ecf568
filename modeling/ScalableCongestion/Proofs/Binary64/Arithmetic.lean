import ScalableCongestion.Control.Prague
import ScalableCongestion.Proofs.Binary64.Packed

/-! Doubles as rationals. The sum, difference, product and quotient of doubles
are the nearest doubles to the exact results as long as these do not overflow,
counts of 32 bits are exact, and doubles compare as their rationals do. -/
namespace ScalableCongestion
open Float.Model (UnpackedFloat)
open Binary64

/-- A double that stands for a rational. Both zeros stand for zero. -/
def Denotes (x : Float) (q : ℚ) : Prop := Stands x.toModel.unpack q

variable {x y : Float} {p q : ℚ}

theorem Denotes.unique (hp : Denotes x p) (hq : Denotes x q) : p = q := Stands.unique hp hq

theorem Denotes.representable (h : Denotes x q) : Representable q := Stands.representable h

theorem Denotes.isNaN_eq_false (h : Denotes x q) : x.isNaN = false := Stands.isNaN_eq_false h

theorem representable_of_natCast_le {n : Nat} (h : n ≤ 2 ^ 53) : Representable n := by
  refine ⟨n, 0, ?_, by norm_num, by rw [zpow_zero, mul_one, Int.cast_natCast]⟩
  rw [abs_of_nonneg (Int.natCast_nonneg n)]
  exact_mod_cast h

theorem representable_quarters {n : Nat} (h : n ≤ 2 ^ 53) : Representable (n / 4) := by
  refine ⟨n, -2, ?_, by norm_num, ?_⟩
  · rw [abs_of_nonneg (Int.natCast_nonneg n)]
    exact_mod_cast h
  · rw [Int.cast_natCast, div_eq_mul_inv]
    norm_num

theorem representable_zero : Representable 0 := representable_of_natCast_le (n := 0) (by norm_num)

theorem representable_one : Representable 1 := by
  exact_mod_cast representable_of_natCast_le (n := 1) (by norm_num)

theorem abs_le_of_le_two_pow (hlow : 0 ≤ q) (hhigh : q ≤ 2 ^ 100) : |q| ≤ 2 ^ (1023 : ℤ) := by
  rw [abs_of_nonneg hlow]
  calc q ≤ 2 ^ (100 : ℤ) := by exact_mod_cast hhigh
    _ ≤ 2 ^ (1023 : ℤ) := zpow_le_zpow_right₀ one_le_two (by norm_num)

theorem abs_nearest_lt (h : |q| ≤ 2 ^ (1023 : ℤ)) : |nearest q| < 2 ^ (1024 : ℤ) := by
  have hbounds := abs_le.mp h
  have hlarge : Representable (2 ^ (1023 : ℤ)) := representable_two_pow (by norm_num)
  have hlow := le_nearest hlarge.neg hbounds.1
  have hhigh := nearest_le hlarge hbounds.2
  calc |nearest q| ≤ 2 ^ (1023 : ℤ) := abs_le.mpr ⟨hlow, hhigh⟩
    _ < 2 ^ (1024 : ℤ) := zpow_lt_zpow_right₀ one_lt_two (by norm_num)

theorem denotes_pack {u : UnpackedFloat} (h : Stands u (nearest q))
    (hsmall : |q| ≤ 2 ^ (1023 : ℤ)) :
    Denotes (.ofModel (.pack u)) (nearest q) := by
  change Stands (UnpackedFloat.unpack .binary64 (UnpackedFloat.pack .binary64 u)) _
  rw [unpack_pack h (abs_nearest_lt hsmall)]
  exact h

theorem denotes_add (hx : Denotes x p) (hy : Denotes y q) (hsmall : |p + q| ≤ 2 ^ (1023 : ℤ)) :
    Denotes (x + y) (nearest (p + q)) :=
  denotes_pack (add_nearest hx hy) hsmall

theorem denotes_sub (hx : Denotes x p) (hy : Denotes y q) (hsmall : |p - q| ≤ 2 ^ (1023 : ℤ)) :
    Denotes (x - y) (nearest (p - q)) :=
  denotes_pack (sub_nearest hx hy) hsmall

theorem denotes_mul (hx : Denotes x p) (hy : Denotes y q) (hsmall : |p * q| ≤ 2 ^ (1023 : ℤ)) :
    Denotes (x * y) (nearest (p * q)) :=
  denotes_pack (mul_nearest hx hy) hsmall

theorem denotes_div (hx : Denotes x p) (hy : Denotes y q) (hq : q ≠ 0)
    (hsmall : |p / q| ≤ 2 ^ (1023 : ℤ)) : Denotes (x / y) (nearest (p / q)) :=
  denotes_pack (div_nearest hx hy hq) hsmall

theorem denotes_toFloat (n : UInt32) : Denotes n.toFloat n.toNat := by
  have hlt : n.toNat < 2 ^ 32 := n.toNat_lt
  have hexact := nearest_of_representable (representable_of_natCast_le (n := n.toNat) (by omega))
  have hsmall : |(n.toNat : ℚ)| ≤ 2 ^ (1023 : ℤ) := by
    have hlt' : (n.toNat : ℚ) ≤ 2 ^ (32 : ℤ) := by exact_mod_cast hlt.le
    rw [abs_of_nonneg n.toNat.cast_nonneg]
    exact hlt'.trans (zpow_le_zpow_right₀ one_le_two (by norm_num))
  have hstands := normalize_nearest n.toNat 0 .positive
  rw [zpow_zero, mul_one, Int.cast_natCast] at hstands
  rw [← hexact]
  exact denotes_pack hstands hsmall

theorem lt_iff (hx : Denotes x p) (hy : Denotes y q) : x < y ↔ p < q := by
  rw [← lt_eq_true_iff hx hy]
  change decide (_ = true) = true ↔ _
  rw [decide_eq_true_iff]
  rfl

theorem le_iff_unpacked (x y : Float) :
    x ≤ y ↔ UnpackedFloat.le x.toModel.unpack y.toModel.unpack = true := by
  change decide (_ = true) = true ↔ _
  rw [decide_eq_true_iff]
  rfl

theorem le_iff (hx : Denotes x p) (hy : Denotes y q) : x ≤ y ↔ p ≤ q := by
  rw [le_iff_unpacked]
  exact le_eq_true_iff hx hy

theorem beq_iff (hx : Denotes x p) (hy : Denotes y q) : (x == y) = true ↔ p = q := by
  change (UnpackedFloat.compare x.toModel.unpack y.toModel.unpack == some .eq) = true ↔ _
  rw [Binary64.compare_eq hx hy, beq_iff_eq, Option.some.injEq, compare_eq_iff_eq]

theorem denotes_zero : Denotes 0.0 0 := .zero .positive

theorem denotes_one : Denotes 1.0 1 := by
  have h := Stands.finite .positive (m := 2 ^ 52) (e := -52) (by norm_num)
    ⟨by norm_num, by norm_num, .inl le_rfl⟩
  rw [signed, natCast_mul_two_pow] at h
  norm_num at h
  exact h

def InUnit (q : ℚ) : Prop := 0 ≤ q ∧ q ≤ 1

theorem InUnit.nearest (h : InUnit q) : InUnit (nearest q) :=
  ⟨le_nearest representable_zero h.1, nearest_le representable_one h.2⟩

theorem inUnit_iff : inUnit x = true ↔ ∃ q, Denotes x q ∧ InUnit q := by
  rw [inUnit, Bool.and_eq_true, decide_eq_true_iff, decide_eq_true_iff]
  constructor
  · rintro ⟨hlow, hhigh⟩
    rcases exists_stands_unpack x.toModel.toBits.toBitVec with ⟨q, hq⟩ | ⟨s, hs⟩ | hnone
    · exact ⟨q, hq, (le_iff denotes_zero hq).mp hlow, (le_iff hq denotes_one).mp hhigh⟩
    · rw [le_iff_unpacked, Float.Model.unpack, Float.Model.unpack, hs] at hlow hhigh
      cases s with
      | positive => exact absurd hhigh (by decide)
      | negative => exact absurd hlow (by decide)
    · rw [le_iff_unpacked, Float.Model.unpack, Float.Model.unpack, hnone] at hlow
      exact absurd hlow (by decide)
  · rintro ⟨q, hq, hlow, hhigh⟩
    exact ⟨(le_iff denotes_zero hq).mpr hlow, (le_iff hq denotes_one).mpr hhigh⟩

end ScalableCongestion
