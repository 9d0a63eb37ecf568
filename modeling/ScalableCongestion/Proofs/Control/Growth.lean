import ScalableCongestion.Proofs.Binary64.Truncation

/-! What an acknowledgement adds to Prague's window, in exact numbers. The square
of a segment is divided by the window. Squares of 53 bits are exact and rounding
the quotient keeps its floor, so the growth is that of whole numbers; beyond them
it still is no more than a segment. -/
namespace ScalableCongestion.Prague
open Binary64

def share (segmentSize cwnd : UInt32) : Float :=
  segmentSize.toFloat * segmentSize.toFloat / (max cwnd 1).toFloat

theorem growth_eq (segmentSize cwnd : UInt32) :
    growth segmentSize cwnd =
      (if share segmentSize cwnd < 1.0 then 1.0 else share segmentSize cwnd).toUInt32 := rfl

/-- The share on rationals, both operations rounded to nearest. -/
def quota (size window : Nat) : ℚ := nearest (nearest ((size * size : Nat) : ℚ) / window)

variable {size window : Nat}

theorem square_le (h : size < 2 ^ 32) : ((size * size : Nat) : ℚ) ≤ 2 ^ 64 := by
  have hle : size * size ≤ 2 ^ 32 * 2 ^ 32 := Nat.mul_le_mul h.le h.le
  exact_mod_cast hle.trans_eq (by norm_num)

theorem nearest_square_bounds (h : size < 2 ^ 32) :
    0 ≤ nearest ((size * size : Nat) : ℚ) ∧ nearest ((size * size : Nat) : ℚ) ≤ 2 ^ 64 := by
  have hlarge : Representable (2 ^ 64) := by
    exact_mod_cast representable_two_pow (k := 64) (by norm_num)
  exact ⟨le_nearest representable_zero (Nat.cast_nonneg _), nearest_le hlarge (square_le h)⟩

theorem denotes_share (segmentSize cwnd : UInt32) :
    Denotes (share segmentSize cwnd) (quota segmentSize.toNat (max cwnd 1).toNat) := by
  have hsize : segmentSize.toNat < 2 ^ 32 := segmentSize.toNat_lt
  have hwindow : 1 ≤ (max cwnd 1).toNat := by
    rw [toNat_max, UInt32.toNat_one]
    exact Nat.le_max_right _ _
  have hwindow' : (1 : ℚ) ≤ (max cwnd 1).toNat := by exact_mod_cast hwindow
  obtain ⟨hlow, hhigh⟩ := nearest_square_bounds hsize
  have hsquare : |(segmentSize.toNat : ℚ) * segmentSize.toNat| ≤ 2 ^ (1023 : ℤ) := by
    rw [← Nat.cast_mul]
    exact abs_le_of_le_two_pow (Nat.cast_nonneg _) ((square_le hsize).trans (by norm_num))
  have hproduct := denotes_mul (denotes_toFloat segmentSize) (denotes_toFloat segmentSize) hsquare
  rw [← Nat.cast_mul] at hproduct
  apply denotes_div hproduct (denotes_toFloat (max cwnd 1)) (zero_lt_one.trans_le hwindow').ne'
  apply abs_le_of_le_two_pow (div_nonneg hlow (Nat.cast_nonneg _))
  exact ((div_le_self hlow hwindow').trans hhigh).trans (by norm_num)

theorem toNat_growth (segmentSize cwnd : UInt32) :
    (growth segmentSize cwnd).toNat =
      min (max 1 ⌊quota segmentSize.toNat (max cwnd 1).toNat⌋₊) 4294967295 := by
  have hshare := denotes_share segmentSize cwnd
  have hlt := lt_iff hshare denotes_one
  rw [growth_eq]
  split
  · next hsmall =>
      rw [toNat_toUInt32 denotes_one, Nat.floor_one, Nat.floor_eq_zero.mpr (hlt.mp hsmall)]
      rfl
  · next hlarge =>
      have hone : 1 ≤ quota segmentSize.toNat (max cwnd 1).toNat :=
        not_lt.mp fun h => hlarge (hlt.mpr h)
      rw [toNat_toUInt32 hshare, Nat.max_eq_right (Nat.floor_pos.mpr hone)]

/-- Rounding the square adds less than half a segment, so the quotient does not
reach the next byte. -/
theorem quota_le (hpos : 0 < size) (hsize : size < 2 ^ 32) (hwindow : size ≤ window) :
    quota size window ≤ (4 * size + 2 : Nat) / 4 := by
  have hpos' : (0 : ℚ) < size := by exact_mod_cast hpos
  have hwindow' : (size : ℚ) ≤ window := by exact_mod_cast hwindow
  have hone : (1 : ℚ) ≤ (size * size : Nat) := by exact_mod_cast Nat.mul_pos hpos hpos
  have hround := (abs_le.mp (abs_nearest_sub_le_of_le (Nat.abs_cast _).le hone)).2
  have hsmall : (2 : ℚ) ^ (-52 : ℤ) * size ≤ 1 / 2 := by
    have hsize' : (size : ℚ) ≤ 2 ^ 32 := by exact_mod_cast hsize.le
    calc (2 : ℚ) ^ (-52 : ℤ) * size ≤ 2 ^ (-52 : ℤ) * 2 ^ 32 :=
          mul_le_mul_of_nonneg_left hsize' (two_pow_pos _).le
      _ ≤ 1 / 2 := by norm_num
  have hhalf : ((4 * size + 2 : Nat) : ℚ) / 4 = size + 1 / 2 := by
    push_cast
    ring
  have hsquare : nearest ((size * size : Nat) : ℚ) ≤ (size + 1 / 2) * size := by
    have hscaled := mul_le_mul_of_nonneg_right hsmall hpos'.le
    rw [Nat.cast_mul] at hround ⊢
    calc nearest ((size : ℚ) * size) ≤ size * size + 2 ^ (-52 : ℤ) * (size * size) :=
          sub_le_iff_le_add'.mp hround
      _ ≤ size * size + 1 / 2 * size := by
          rw [← mul_assoc]
          exact add_le_add_right hscaled _
      _ = (size + 1 / 2) * size := by ring
  apply nearest_le (representable_quarters (by omega))
  rw [hhalf, div_le_iff₀ (hpos'.trans_le hwindow')]
  exact hsquare.trans (mul_le_mul_of_nonneg_left hwindow' (by positivity))

theorem floor_quota_le (hpos : 0 < size) (hsize : size < 2 ^ 32) (hwindow : size ≤ window) :
    ⌊quota size window⌋₊ ≤ size := by
  have hfloor := Nat.floor_mono (quota_le hpos hsize hwindow)
  rw [Nat.floor_div_ofNat, Nat.floor_natCast] at hfloor
  omega

theorem floor_quota_eq (hsquare : size * size < 2 ^ 53) (hpos : 0 < window)
    (hwindow : window < 2 ^ 53) : ⌊quota size window⌋₊ = size * size / window := by
  rw [quota, nearest_of_representable (representable_of_natCast_le hsquare.le)]
  exact floor_nearest_div hsquare hpos hwindow

variable {segmentSize cwnd : UInt32}

theorem growth_bounds (hpos : 0 < segmentSize.toNat) (hwindow : segmentSize.toNat ≤ cwnd.toNat) :
    1 ≤ (growth segmentSize cwnd).toNat ∧
      (growth segmentSize cwnd).toNat ≤ segmentSize.toNat := by
  have hsize := segmentSize.toNat_lt
  have hwindow' : segmentSize.toNat ≤ (max cwnd 1).toNat := by
    rw [toNat_max]
    exact hwindow.trans (Nat.le_max_left _ _)
  have hfloor := floor_quota_le hpos hsize hwindow'
  rw [toNat_growth]
  omega

theorem floor_share (hsquare : segmentSize.toNat * segmentSize.toNat < 2 ^ 53)
    (hpos : 0 < cwnd.toNat) :
    ∃ q, Denotes (share segmentSize cwnd) q ∧
      ⌊q⌋₊ = segmentSize.toNat * segmentSize.toNat / cwnd.toNat := by
  have hsame : (max cwnd 1).toNat = cwnd.toNat := by
    rw [toNat_max]
    exact Nat.max_eq_left hpos
  have hwindow := cwnd.toNat_lt
  have hdenotes := denotes_share segmentSize cwnd
  rw [hsame] at hdenotes
  exact ⟨_, hdenotes, floor_quota_eq hsquare hpos (hwindow.trans (by norm_num))⟩

theorem growth_exact (hpos : 0 < segmentSize.toNat) (hwindow : segmentSize.toNat ≤ cwnd.toNat)
    (hsquare : segmentSize.toNat * segmentSize.toNat < 2 ^ 53) :
    (growth segmentSize cwnd).toNat =
      max 1 (segmentSize.toNat * segmentSize.toNat / cwnd.toNat) := by
  obtain ⟨q, hq, hfloor⟩ := floor_share hsquare (hpos.trans_le hwindow)
  have hgrowth := toNat_growth segmentSize cwnd
  rw [(denotes_share segmentSize cwnd).unique hq, hfloor] at hgrowth
  have hquotient : segmentSize.toNat * segmentSize.toNat / cwnd.toNat ≤ segmentSize.toNat :=
    Nat.div_le_of_le_mul (Nat.mul_le_mul_right _ hwindow)
  have hlt := segmentSize.toNat_lt
  omega

end ScalableCongestion.Prague
