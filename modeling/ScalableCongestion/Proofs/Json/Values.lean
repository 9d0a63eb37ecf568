import ScalableCongestion.Json.Printer
import ScalableCongestion.Json.Record
import ScalableCongestion.Proofs.Json.Deviation
import ScalableCongestion.Proofs.Json.RoundTrip

/-! Counts and doubles as values in a document, and what is read of them. A count
is read as it was, and a double as one near it. -/
namespace ScalableCongestion.Json

/-! ## Counts -/

theorem spelled_natural (n : Nat) :
    Decimal.Literal.Spelled ⟨false, Nat.toDigits 10 n, [], none⟩ := by
  refine ⟨Nat.toDigits_ne_nil, Decimal.isDigit_toDigits, ?_, nofun, nofun⟩
  intro hzero
  cases n with
  | zero => exact Nat.toDigits_zero 10
  | succ n => exact absurd hzero (Decimal.head?_toDigits (Nat.succ_pos n))

theorem numberOf?_natural {n : Nat} (h : n < significandBound) :
    numberOf? ⟨false, Nat.toDigits 10 n, [], none⟩ = some (.natural n) := by
  rw [numberOf?, if_pos ⟨rfl, rfl⟩]
  dsimp only
  rw [Decimal.natOfDigits_toDigits, if_pos]
  rw [Bool.not_false, Bool.true_and, decide_eq_true_iff]
  exact h

theorem toNat_lt_significandBound (n : UInt32) : n.toNat < significandBound :=
  n.toNat_lt.trans (by decide)

theorem count?_natural (n : UInt32) : count? (natural n.toNat) = some n := by
  rw [natural, count?, numberOf?_natural (toNat_lt_significandBound n)]
  change (if n.toNat < UInt32.size then some (UInt32.ofNat n.toNat) else none) = some n
  rw [if_pos n.toNat_lt, UInt32.ofNat_toNat]

theorem readable_natural (n : UInt32) : (natural n.toNat).readable = true := by
  rw [natural, readable, numberOf?_natural (toNat_lt_significandBound n)]
  rfl

/-! ## Doubles -/

variable {x y : Float}

/-- Both are finite, and the second is near the first. -/
def Near (x y : Float) : Prop :=
  ∃ p q, Denotes x p ∧ Denotes y q ∧ Binary64.Within 11 q p

theorem near_of_reread? (hx : x.isFinite = true) (hy : reread? x = some y) : Near x y := by
  obtain ⟨p, hp⟩ := isFinite_iff.mp hx
  obtain ⟨q, hq, hnear⟩ := reread?_near hp hy
  exact ⟨p, q, hp, hq, hnear⟩

theorem printable_ofFloat (x : Float) : Printable (ofFloat x) := by
  unfold ofFloat
  split
  · next hfinite =>
      obtain ⟨q, hq⟩ := isFinite_iff.mp hfinite
      obtain ⟨n, hwritten, _⟩ := Decimal.written_lay hq
      exact hwritten.spelled
  · trivial

/-- A double is never written as a whole number. -/
theorem numberOf?_lay (h : x.isFinite = true) :
    numberOf? (Decimal.lay .document x) = (reread? x).map .real := by
  obtain ⟨q, hq⟩ := isFinite_iff.mp h
  obtain ⟨n, hwritten, _⟩ := Decimal.written_lay hq
  rw [numberOf?, if_neg, reread?]
  rintro ⟨hfraction, hexponent⟩
  rcases hwritten.real with hreal | hreal
  · exact hreal (List.isEmpty_iff.mp hfraction)
  · exact hreal hexponent

theorem float?_ofFloat : float? (ofFloat x) = some y ↔ x.isFinite = true ∧ reread? x = some y := by
  unfold ofFloat
  split
  · next hfinite =>
      rw [float?, numberOf?_lay hfinite, Option.map_map]
      change (reread? x).map id = some y ↔ _
      rw [Option.map_id_fun, id, and_iff_right hfinite]
  · next hinfinite => exact iff_of_false nofun fun h => hinfinite h.1

theorem nearest_lay (h : x.isFinite = true) : (Decimal.lay .document x).nearest = x := by
  obtain ⟨q, hq⟩ := isFinite_iff.mp h
  obtain ⟨n, hwritten, hcases⟩ := Decimal.written_lay hq
  have hsize : (Decimal.lay .document x).numeral.nearest = x.abs := by
    rcases hcases with ⟨rfl, rfl⟩ | ⟨hne, hreads⟩
    · have hzero : (Decimal.lay .document x).numeral.coefficient = 0 := by
        simpa [Decimal.Numeral.value, zpow_ne_zero] using hwritten.value_eq
      rw [Decimal.Numeral.nearest, abs_eq_zero_of_denotes hq]
      exact if_pos (.inl hzero)
    · exact hreads.nearest_eq hq.abs (abs_pos.mpr hne).ne' hwritten.value_eq
        hwritten.coefficient_lt
  rw [Decimal.Literal.nearest, hsize, hwritten.negative_eq, ← hq.eq_signed]

theorem depth_ofFloat (x : Float) : (ofFloat x).depth = 0 := by
  unfold ofFloat
  split <;> rfl

theorem readable_ofFloat (x : Float) : (ofFloat x).readable = true := by
  unfold ofFloat
  split
  · next hfinite =>
      obtain ⟨y, hy⟩ := exists_reread? hfinite
      rw [readable, numberOf?_lay hfinite, hy]
      rfl
  · rfl

end ScalableCongestion.Json
