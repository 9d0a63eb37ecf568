import ScalableCongestion.Proofs.Binary64.Scientific
import ScalableCongestion.Proofs.Binary64.Spacing

/-! The shortest decimal of a double reads back as that double. On the last of the
twenty grids the nearer of the two points next to a double lies within half the
distance to any other double, so one of the grids has a point and the search does
not end without one. -/
namespace ScalableCongestion
open Binary64

namespace Decimal

def Numeral.value (n : Numeral) : ℚ := n.coefficient * 10 ^ n.exponent

theorem Numeral.value_bounds {n : Numeral} {digits : Nat} (hpos : 0 < n.coefficient)
    (hlt : n.coefficient < 10 ^ digits) :
    (10 : ℚ) ^ n.exponent ≤ n.value ∧ n.value < 10 ^ (n.exponent + digits) := by
  have hpower : (0 : ℚ) < 10 ^ n.exponent := zpow_pos (by norm_num) _
  constructor
  · exact le_mul_of_one_le_left hpower.le (Nat.one_le_cast.mpr hpos)
  · rw [add_comm, zpow_add₀ (by norm_num), zpow_natCast, Numeral.value]
    exact mul_lt_mul_of_pos_right (by exact_mod_cast hlt) hpower

theorem Numeral.exponent_lt {m n : Numeral} {digits : Nat} (h : m.value = n.value)
    (hm : 0 < m.coefficient) (hn : 0 < n.coefficient) (hlt : n.coefficient < 10 ^ digits) :
    m.exponent < n.exponent + digits := by
  have hlow : (10 : ℚ) ^ m.exponent ≤ m.value :=
    (Numeral.value_bounds hm (Nat.lt_pow_self (by norm_num))).1
  have hhigh := (Numeral.value_bounds hn hlt).2
  exact (zpow_lt_zpow_iff_right₀ (by norm_num)).mp ((h ▸ hlow).trans_lt hhigh)

theorem Numeral.nearest_eq_toFloat {n : Numeral} (hpos : 0 < n.coefficient)
    (hlt : n.coefficient < 10 ^ 20) (hexponent : n.exponent.natAbs ≤ 370) :
    n.nearest = n.toFloat := by
  have hdigits : (Nat.toDigits 10 n.coefficient).length ≤ 20 :=
    (Nat.length_toDigits_le_iff (by decide) (by decide)).mpr hlt
  rw [Numeral.nearest, if_neg (by omega), if_neg (by omega)]

theorem rounded_toFloat {n : Numeral} (h : n.exponent.natAbs ≤ 2 ^ 11) :
    Rounded n.toFloat n.value := by
  obtain ⟨coefficient, exponent⟩ := n
  cases exponent with
  | ofNat k => exact rounded_ofScientific coefficient false h
  | negSucc k => exact rounded_ofScientific coefficient true h

theorem readsBack_iff {x : Float} {n : Numeral} : readsBack x n = true ↔ n.toFloat = x := by
  rw [readsBack, beq_iff_eq]
  constructor
  · intro h
    generalize n.toFloat = y at h
    obtain ⟨⟨_, _⟩⟩ := x
    obtain ⟨⟨_, _⟩⟩ := y
    cases h
    rfl
  · intro h
    rw [h]

/-! ## Grids -/

theorem zpow_mul_pow_toNat {a : ℚ} (ha : a ≠ 0) (e : ℤ) : a ^ e * a ^ (-e).toNat = a ^ e.toNat := by
  rw [← zpow_natCast, ← zpow_natCast, ← zpow_add₀ ha]
  congr 1
  omega

theorem magnitude_eq (b : Binary) : b.magnitude = b.numerator / b.denominator := by
  have hpos : (0 : ℚ) < b.denominator := Nat.cast_pos.mpr b.denominator_pos
  have hpower := zpow_mul_pow_toNat (a := 2) two_ne_zero b.exponent
  rw [eq_div_iff hpos.ne', Binary.magnitude, Binary.numerator, Binary.denominator, mul_assoc,
    Nat.pow_eq, Nat.pow_eq]
  push_cast
  rw [hpower]

def gridNumerator (b : Binary) (k : ℤ) : Nat := b.numerator * 10 ^ (-k).toNat

def gridDenominator (b : Binary) (k : ℤ) : Nat := b.denominator * 10 ^ k.toNat

def below (b : Binary) (k : ℤ) : Nat := gridNumerator b k / gridDenominator b k

theorem gridDenominator_pos (b : Binary) (k : ℤ) : 0 < gridDenominator b k :=
  Nat.mul_pos b.denominator_pos (Nat.pow_pos (by norm_num))

theorem gridNumerator_div (b : Binary) (k : ℤ) :
    (gridNumerator b k : ℚ) / gridDenominator b k = b.magnitude / 10 ^ k := by
  have hten : (10 : ℚ) ^ k ≠ 0 := zpow_ne_zero k (by norm_num)
  have hgrid : (gridDenominator b k : ℚ) ≠ 0 := Nat.cast_ne_zero.mpr (gridDenominator_pos b k).ne'
  have hpos : (b.denominator : ℚ) ≠ 0 := Nat.cast_ne_zero.mpr b.denominator_pos.ne'
  have hpower := zpow_mul_pow_toNat (a := 10) (by norm_num) k
  rw [div_eq_div_iff hgrid hten, magnitude_eq, gridNumerator, gridDenominator]
  push_cast
  rw [← hpower]
  field_simp

theorem below_add_rest (b : Binary) (k : ℤ) :
    b.magnitude / 10 ^ k = below b k +
      (gridNumerator b k % gridDenominator b k : Nat) / gridDenominator b k := by
  have hgrid : (gridDenominator b k : ℚ) ≠ 0 := Nat.cast_ne_zero.mpr (gridDenominator_pos b k).ne'
  have hdivision : (gridNumerator b k : ℚ) =
      gridDenominator b k * below b k + (gridNumerator b k % gridDenominator b k : Nat) := by
    exact_mod_cast (Nat.div_add_mod (gridNumerator b k) (gridDenominator b k)).symm
  rw [← gridNumerator_div, div_eq_iff hgrid, add_mul, div_mul_cancel₀ _ hgrid, mul_comm _ (_ : ℚ)]
  exact hdivision

theorem below_lt {b : Binary} {k : ℤ} {i : Nat} (h : b.magnitude < 10 ^ (k + i)) :
    below b k < 10 ^ i := by
  have hten : (0 : ℚ) < 10 ^ k := zpow_pos (by norm_num) k
  have hrest : (0 : ℚ) ≤
      (gridNumerator b k % gridDenominator b k : Nat) / gridDenominator b k := by positivity
  have hsplit := below_add_rest b k
  have hquotient : b.magnitude / 10 ^ k < (10 ^ i : Nat) := by
    rw [div_lt_iff₀ hten, mul_comm]
    push_cast
    rw [← zpow_natCast, ← zpow_add₀ (by norm_num)]
    exact h
  have hbelow : (below b k : ℚ) < (10 ^ i : Nat) := by linarith
  exact_mod_cast hbelow

theorem nearerAbove_cases (tie : Tie) (whole rest unit : Nat) :
    nearerAbove tie whole rest unit = true ∧ unit ≤ 2 * rest ∨
      nearerAbove tie whole rest unit = false ∧ 2 * rest ≤ unit := by
  unfold nearerAbove
  rcases lt_trichotomy (2 * rest) unit with hlt | heq | hgt
  · rw [compare_lt_iff_lt.mpr hlt]
    exact .inr ⟨rfl, hlt.le⟩
  · rw [compare_eq_iff_eq.mpr heq]
    cases htie : tie == .up || whole % 2 == 1 with
    | true => exact .inl ⟨rfl, heq.ge⟩
    | false => exact .inr ⟨rfl, heq.le⟩
  · rw [compare_gt_iff_gt.mpr hgt]
    exact .inl ⟨rfl, hgt.le⟩

theorem neighbours_eq (tie : Tie) (b : Binary) (k : ℤ) :
    neighbours tie b k =
      if nearerAbove tie (below b k) (gridNumerator b k % gridDenominator b k) (gridDenominator b k)
      then [below b k + 1, below b k] else [below b k, below b k + 1] := rfl

theorem le_below_of_mem {tie : Tie} {b : Binary} {k : ℤ} {c : Nat}
    (h : c ∈ neighbours tie b k) : c ≤ below b k + 1 := by
  rw [neighbours_eq] at h
  split at h <;> simp only [List.mem_cons, List.not_mem_nil, or_false] at h <;> omega

theorem exists_neighbour (tie : Tie) (b : Binary) (k : ℤ) :
    ∃ c ∈ neighbours tie b k, |(c : ℚ) * 10 ^ k - b.magnitude| ≤ 10 ^ k / 2 := by
  have hten : (0 : ℚ) < 10 ^ k := zpow_pos (by norm_num) k
  have hgrid : (0 : ℚ) < gridDenominator b k := Nat.cast_pos.mpr (gridDenominator_pos b k)
  -- distances are measured in steps of the grid
  have hscale (c : ℚ) (hc : |c - b.magnitude / 10 ^ k| ≤ 1 / 2) :
      |c * 10 ^ k - b.magnitude| ≤ 10 ^ k / 2 := by
    have hmul : c * 10 ^ k - b.magnitude = (c - b.magnitude / 10 ^ k) * 10 ^ k := by
      rw [sub_mul, div_mul_cancel₀ _ hten.ne']
    rw [hmul, abs_mul, abs_of_pos hten]
    linarith [mul_le_mul_of_nonneg_right hc hten.le]
  have hrest : gridNumerator b k % gridDenominator b k < gridDenominator b k :=
    Nat.mod_lt _ (gridDenominator_pos b k)
  have hsplit := below_add_rest b k
  have hcases := nearerAbove_cases tie (below b k) (gridNumerator b k % gridDenominator b k)
    (gridDenominator b k)
  rw [neighbours_eq]
  generalize gridNumerator b k % gridDenominator b k = rest at *
  have hnonneg : 0 ≤ (rest : ℚ) / gridDenominator b k := by positivity
  have hone : (rest : ℚ) / gridDenominator b k < 1 := (div_lt_one hgrid).mpr (Nat.cast_lt.mpr hrest)
  rcases hcases with ⟨hnearer, hle⟩ | ⟨hnearer, hle⟩
  · have hhalf : 1 / 2 ≤ (rest : ℚ) / gridDenominator b k := by
      rw [div_le_div_iff₀ two_pos hgrid, one_mul, mul_comm]
      exact_mod_cast hle
    rw [if_pos hnearer]
    refine ⟨_, List.mem_cons_self, hscale _ ?_⟩
    rw [hsplit, abs_le]
    push_cast
    constructor <;> linarith
  · have hhalf : (rest : ℚ) / gridDenominator b k ≤ 1 / 2 := by
      rw [div_le_div_iff₀ hgrid two_pos, one_mul, mul_comm]
      exact_mod_cast hle
    rw [hnearer, if_neg Bool.false_ne_true]
    refine ⟨_, List.mem_cons_self, hscale _ ?_⟩
    rw [hsplit, abs_le]
    constructor <;> linarith

/-- What a grid gives for a double: one of the points next to it, which reads back. -/
structure OnGrid (x : Float) (k : ℤ) (n : Numeral) : Prop where
  exponent : n.exponent = k
  coefficient_le : n.coefficient ≤ below (Binary.ofFloat x) k + 1
  toFloat_eq : n.toFloat = x

variable {tie : Tie} {x : Float} {q : ℚ}

theorem onGrid_of_gridPoint? {k : ℤ} {n : Numeral} (h : gridPoint? tie x k = some n) :
    OnGrid x k n := by
  obtain ⟨c, hc, rfl⟩ := List.mem_map.mp (List.mem_of_find?_eq_some h)
  exact ⟨rfl, le_below_of_mem hc, readsBack_iff.mp (List.find?_some h)⟩

theorem gridPoint?_isSome (hx : Denotes x q) (hq : 0 < q) {j k : ℤ} (hj : 2 ^ j ≤ q)
    (hk : 10 ^ k < (2 : ℚ) ^ (j - 53)) (hrange : k.natAbs ≤ 2 ^ 11) :
    (gridPoint? tie x k).isSome = true := by
  have hmagnitude := hx.magnitude
  rw [abs_of_pos hq] at hmagnitude
  obtain ⟨c, hc, hnear⟩ := exists_neighbour tie (Binary.ofFloat x) k
  rw [← hmagnitude] at hnear
  have hhalf : (2 : ℚ) ^ (j - 54) * 2 = 2 ^ (j - 53) := by
    rw [← zpow_add_one₀ two_ne_zero]
    congr 1
    omega
  have hnearest : nearest (Numeral.mk c k).value = q :=
    nearest_eq_of_close hx.representable (by rw [abs_of_pos hq]; exact hj)
      (hnear.trans_lt (by linarith))
  have hrounded := rounded_toFloat (n := Numeral.mk c k) hrange
  have hdenotes := hrounded.denotes (by rw [hnearest]; exact hx.abs_lt)
  rw [hnearest] at hdenotes
  rw [gridPoint?, List.find?_isSome]
  exact ⟨_, List.mem_map_of_mem hc, readsBack_iff.mpr (hdenotes.eq hx hq.ne')⟩

theorem search_found {grids : Nat} {k : ℤ}
    (h : ∃ i < grids, (gridPoint? tie x (k - i)).isSome = true) :
    ∃ i < grids, gridPoint? tie x (k - i) = some (search tie x grids k) := by
  induction grids generalizing k with
  | zero =>
      obtain ⟨i, hi, _⟩ := h
      exact absurd hi (Nat.not_lt_zero i)
  | succ grids ih =>
      rw [search]
      cases hpoint : gridPoint? tie x k with
      | some n =>
          refine ⟨0, Nat.succ_pos grids, ?_⟩
          rw [Nat.cast_zero, sub_zero, hpoint]
          rfl
      | none =>
          have hlater : ∃ i < grids, (gridPoint? tie x (k - 1 - i)).isSome = true := by
            obtain ⟨i, hi, hsome⟩ := h
            cases i with
            | zero =>
                rw [Nat.cast_zero, sub_zero, hpoint] at hsome
                cases hsome
            | succ i =>
                refine ⟨i, Nat.lt_of_succ_lt_succ hi, ?_⟩
                rw [sub_sub, add_comm 1]
                exact_mod_cast hsome
          obtain ⟨i, hi, hsome⟩ := ih hlater
          refine ⟨i + 1, Nat.succ_lt_succ hi, ?_⟩
          rw [sub_sub, add_comm 1] at hsome
          exact_mod_cast hsome

/-! ## Where the search begins -/

def twoLeTen (j k : ℤ) : Bool :=
  Nat.ble (Nat.pow 2 j.toNat * Nat.pow 10 (-k).toNat) (Nat.pow 10 k.toNat * Nat.pow 2 (-j).toNat)

theorem twoLeTen_iff {j k : ℤ} : twoLeTen j k = true ↔ (2 : ℚ) ^ j ≤ 10 ^ k := by
  have htwo := zpow_mul_pow_toNat (a := 2) two_ne_zero j
  have hten := zpow_mul_pow_toNat (a := 10) (by norm_num) k
  have hscale : (0 : ℚ) < 2 ^ (-j).toNat * 10 ^ (-k).toNat := by positivity
  rw [twoLeTen, Nat.ble_eq, ← mul_le_mul_iff_of_pos_right hscale, ← mul_assoc, htwo,
    mul_left_comm, hten, mul_comm _ (_ ^ k.toNat)]
  exact_mod_cast Iff.rfl

def firstGrid (j : ℤ) : ℤ := (j + 1) * 30103 / 100000 + 1

/-- Whether twenty grids are right for a size: the first is coarser than its doubles
and the last finer than their distances. -/
def covers (j : ℤ) : Bool := twoLeTen (j + 1) (firstGrid j) && !twoLeTen (j - 53) (firstGrid j - 19)

theorem covers_sizes : (List.range 2098).all (fun i => covers (i - 1074)) = true := by
  decide +kernel

theorem firstGrid_bounds {j : ℤ} (hlow : -1074 ≤ j) (hhigh : j < 1024) :
    (2 : ℚ) ^ (j + 1) ≤ 10 ^ firstGrid j ∧ (10 : ℚ) ^ (firstGrid j - 19) < 2 ^ (j - 53) := by
  obtain ⟨i, hi⟩ := Int.eq_ofNat_of_zero_le (show 0 ≤ j + 1074 by omega)
  obtain rfl : j = i - 1074 := by omega
  have hcovers := List.all_eq_true.mp covers_sizes i (List.mem_range.mpr (by omega))
  rw [covers, Bool.and_eq_true, Bool.not_eq_true'] at hcovers
  refine ⟨twoLeTen_iff.mp hcovers.1, not_le.mp ?_⟩
  intro hle
  rw [twoLeTen_iff.mpr hle] at hcovers
  cases hcovers.2

def leading (b : Binary) : ℤ := b.mantissa.log2 + b.exponent

theorem upperExponent_eq (b : Binary) : upperExponent b = firstGrid (leading b) := by
  rw [upperExponent, firstGrid, leading, add_right_comm]

theorem two_pow_leading_le {b : Binary} (h : b.mantissa ≠ 0) : 2 ^ leading b ≤ b.magnitude := by
  have hlog : ((2 ^ b.mantissa.log2 : Nat) : ℚ) ≤ b.mantissa :=
    Nat.cast_le.mpr (Nat.log2_self_le h)
  rw [leading, add_comm, ← natCast_mul_two_pow]
  exact mul_le_mul_of_nonneg_right hlog (two_pow_pos _).le

theorem magnitude_lt_two_pow (b : Binary) : b.magnitude < 2 ^ (leading b + 1) := by
  have hlog : (b.mantissa : ℚ) < (2 ^ (b.mantissa.log2 + 1) : Nat) :=
    Nat.cast_lt.mpr Nat.lt_log2_self
  have hexponent : leading b + 1 = b.exponent + (b.mantissa.log2 + 1 : Nat) := by
    rw [leading]
    omega
  rw [hexponent, ← natCast_mul_two_pow]
  exact mul_lt_mul_of_pos_right hlog (two_pow_pos _)

theorem le_exponent_ofFloat (x : Float) : -1074 ≤ (Binary.ofFloat x).exponent := by
  rw [ofFloat_eq]
  split
  · exact le_rfl
  · dsimp only
    omega

theorem leading_bounds (hx : Denotes x q) (hq : 0 < q) :
    2 ^ leading (Binary.ofFloat x) ≤ q ∧ q < 2 ^ (leading (Binary.ofFloat x) + 1) ∧
      -1074 ≤ leading (Binary.ofFloat x) ∧ leading (Binary.ofFloat x) < 1024 := by
  have hmagnitude := hx.magnitude
  rw [abs_of_pos hq] at hmagnitude
  have hlow := two_pow_leading_le (mt hx.mantissa_eq_zero_iff.mp hq.ne')
  have hhigh := magnitude_lt_two_pow (Binary.ofFloat x)
  rw [← hmagnitude] at hlow hhigh
  refine ⟨hlow, hhigh, ?_, ?_⟩
  · have := le_exponent_ofFloat x
    rw [leading]
    omega
  · have hrange := hx.abs_lt
    rw [abs_of_pos hq] at hrange
    exact (zpow_lt_zpow_iff_right₀ one_lt_two).mp (hlow.trans_lt hrange)

theorem shortest_onGrid (tie : Tie) (hx : Denotes x q) (hq : 0 < q) :
    ∃ i < 20, OnGrid x (firstGrid (leading (Binary.ofFloat x)) - (i : Nat)) (shortest tie x) := by
  obtain ⟨hlow, _, hmin, hmax⟩ := leading_bounds hx hq
  obtain ⟨_, hfine⟩ := firstGrid_bounds hmin hmax
  have hrange : (firstGrid (leading (Binary.ofFloat x)) - 19).natAbs ≤ 2 ^ 11 := by
    unfold firstGrid
    omega
  -- the twentieth grid is fine enough for any double of this size
  have hlast : ∃ i < 20,
      (gridPoint? tie x (firstGrid (leading (Binary.ofFloat x)) - (i : Nat))).isSome = true :=
    ⟨19, by omega, gridPoint?_isSome hx hq hlow hfine hrange⟩
  obtain ⟨i, hi, hpoint⟩ := search_found hlast
  rw [← upperExponent_eq] at hpoint ⊢
  exact ⟨i, hi, onGrid_of_gridPoint? hpoint⟩

/-- What the shortest decimal of a positive double is good for. -/
structure Reads (n : Numeral) (x : Float) (q : ℚ) : Prop where
  nearest_value : nearest n.value = q
  toFloat_eq : n.toFloat = x
  coefficient_pos : 0 < n.coefficient
  coefficient_le : n.coefficient ≤ 10 ^ 19
  exponent_le : n.exponent.natAbs ≤ 350

theorem coefficient_pos_of_nearest {n : Numeral} (h : nearest n.value = q) (hq : q ≠ 0) :
    0 < n.coefficient := by
  apply Nat.pos_of_ne_zero
  intro hzero
  rw [Numeral.value, hzero, Nat.cast_zero, zero_mul, nearest_zero] at h
  exact hq h.symm

theorem shortest_reads (hx : Denotes x q) (hq : 0 < q) : Reads (shortest tie x) x q := by
  obtain ⟨_, hhigh, hmin, hmax⟩ := leading_bounds hx hq
  obtain ⟨hcoarse, _⟩ := firstGrid_bounds hmin hmax
  obtain ⟨i, hi, hexponent, hcoefficient, hback⟩ := shortest_onGrid tie hx hq
  generalize shortest tie x = n at hexponent hcoefficient hback
  have hexponent' : n.exponent.natAbs ≤ 350 := by
    rw [hexponent]
    unfold firstGrid
    omega
  have hnearest : nearest n.value = q := by
    have hrounded := rounded_toFloat (n := n) (hexponent'.trans (by norm_num))
    rw [hback] at hrounded
    exact hrounded.nearest_eq hx
  refine ⟨hnearest, hback, coefficient_pos_of_nearest hnearest hq.ne', ?_, hexponent'⟩
  have hbelow : below (Binary.ofFloat x) (firstGrid (leading (Binary.ofFloat x)) - i) < 10 ^ i := by
    have hmagnitude := hx.magnitude
    rw [abs_of_pos hq] at hmagnitude
    apply below_lt
    rw [← hmagnitude, sub_add_cancel]
    exact hhigh.trans_le hcoarse
  calc n.coefficient ≤ 10 ^ i := hcoefficient.trans hbelow
    _ ≤ 10 ^ 19 := Nat.pow_le_pow_right (by norm_num) (by omega)

theorem Reads.nearest_eq {m n : Numeral} (h : Reads n x q) (hx : Denotes x q) (hq : q ≠ 0)
    (hvalue : m.value = n.value) (hcoefficient : m.coefficient < 2 ^ 64) : m.nearest = x := by
  have hpos := coefficient_pos_of_nearest (hvalue ▸ h.nearest_value) hq
  have hlt := hcoefficient.trans (show 2 ^ 64 < 10 ^ 20 by norm_num)
  have hlow := Numeral.exponent_lt hvalue hpos h.coefficient_pos
    (h.coefficient_le.trans_lt (show 10 ^ 19 < 10 ^ 20 by norm_num))
  have hhigh := Numeral.exponent_lt hvalue.symm h.coefficient_pos hpos hlt
  have hexponent := h.exponent_le
  have hrounded := rounded_toFloat (n := m) (by omega)
  rw [Rounded, hvalue, h.nearest_value] at hrounded
  obtain ⟨u, hu, hstands⟩ := hrounded
  rw [Numeral.nearest_eq_toFloat hpos hlt (by omega), hu]
  exact (denotes_of_stands hstands hx.abs_lt).eq hx hq

end Decimal

end ScalableCongestion
