/-! Saturating arithmetic on 32-bit byte and segment counts. Each operation is
the exact natural-number result brought into range, which is what its `toNat`
lemma says. -/
namespace ScalableCongestion

def maxCount : UInt32 := 4294967295

def clamp (n : Nat) : UInt32 := UInt32.ofNat (min n maxCount.toNat)

def satAdd (a b : UInt32) : UInt32 := clamp (a.toNat + b.toNat)

def satMul (a b : UInt32) : UInt32 := clamp (a.toNat * b.toNat)

def satSub (a b : UInt32) : UInt32 := clamp (a.toNat - b.toNat)

def divCeil (a b : UInt32) : UInt32 := if a % b = 0 then a / b else a / b + 1

theorem toNat_maxCount : maxCount.toNat = 4294967295 := rfl

@[simp] theorem toNat_clamp (n : Nat) : (clamp n).toNat = min n 4294967295 := by
  rw [clamp, UInt32.toNat_ofNat', toNat_maxCount]
  exact Nat.mod_eq_of_lt (by omega)

theorem toNat_satAdd (a b : UInt32) :
    (satAdd a b).toNat = min (a.toNat + b.toNat) 4294967295 := toNat_clamp _

theorem toNat_satMul (a b : UInt32) :
    (satMul a b).toNat = min (a.toNat * b.toNat) 4294967295 := toNat_clamp _

theorem toNat_satSub (a b : UInt32) : (satSub a b).toNat = a.toNat - b.toNat := by
  rw [satSub, toNat_clamp]
  have := a.toNat_lt
  omega

theorem toNat_max (a b : UInt32) : (max a b).toNat = max a.toNat b.toNat := by
  change (if a ≤ b then b else a).toNat = _
  split
  · next h => exact (Nat.max_eq_right (UInt32.le_iff_toNat_le.mp h)).symm
  · next h =>
      rw [UInt32.le_iff_toNat_le] at h
      exact (Nat.max_eq_left (by omega)).symm

theorem toNat_min (a b : UInt32) : (min a b).toNat = min a.toNat b.toNat := by
  change (if a ≤ b then a else b).toNat = _
  split
  · next h => exact (Nat.min_eq_left (UInt32.le_iff_toNat_le.mp h)).symm
  · next h =>
      rw [UInt32.le_iff_toNat_le] at h
      exact (Nat.min_eq_right (by omega)).symm

theorem toNat_divCeil {a b : UInt32} (hb : 0 < b.toNat) :
    (divCeil a b).toNat = (a.toNat + b.toNat - 1) / b.toNat := by
  have ha := a.toNat_lt
  have hdiv := Nat.div_add_mod a.toNat b.toNat
  have hmod := Nat.mod_lt a.toNat hb
  have hle := Nat.div_le_self a.toNat b.toNat
  have hzero : a % b = 0 ↔ a.toNat % b.toNat = 0 := by
    rw [← UInt32.toNat_inj, UInt32.toNat_mod]
    rfl
  symm
  unfold divCeil
  split
  · next h =>
      rw [hzero] at h
      rw [UInt32.toNat_div, Nat.div_eq_iff hb]
      rw [h, Nat.mul_comm] at hdiv
      omega
  · next h =>
      rw [hzero] at h
      have hone : b.toNat ≠ 1 := fun hone => h (by rw [hone, Nat.mod_one])
      have hhalf : a.toNat / b.toNat ≤ a.toNat / 2 := Nat.div_le_div_left (by omega) (by decide)
      have hsum : (a / b + 1).toNat = a.toNat / b.toNat + 1 := by
        rw [UInt32.toNat_add, UInt32.toNat_div, UInt32.toNat_one, Nat.mod_eq_of_lt]
        omega
      rw [hsum, Nat.div_eq_iff hb, Nat.add_mul, Nat.mul_comm (a.toNat / b.toNat)]
      omega

end ScalableCongestion
