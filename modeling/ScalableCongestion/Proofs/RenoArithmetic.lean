import Mathlib.Algebra.Order.Floor.Div
import Mathlib.Order.Bounds.Defs
import ScalableCongestion.Proofs.Control.Reno

/-! Reno's arithmetic on machine words. An acknowledgement is computed a second
time with operations that have a result only where the exact one is a word, and
it comes to the same: nothing wraps around and nothing is divided by zero. Slow
start and congestion avoidance are then told in exact numbers, for any counter,
any windows and any segment size. -/
namespace ScalableCongestion

/-- The word for an exact number, if there is one. -/
def word? (n : Int) : Option UInt32 :=
  if 0 ≤ n ∧ n < UInt32.size then some (UInt32.ofNat n.toNat) else none

def sum? (a b : UInt32) : Option UInt32 := word? (a.toNat + b.toNat)

def difference? (a b : UInt32) : Option UInt32 := word? (a.toNat - b.toNat)

def product? (a b : UInt32) : Option UInt32 := word? (a.toNat * b.toNat)

def quotient? (a b : UInt32) : Option UInt32 :=
  if b = 0 then none else word? (a.toNat / b.toNat)

def quotientUp? (a b : UInt32) : Option UInt32 := do
  let whole ← quotient? a b
  if a % b = 0 then return whole else sum? whole 1

section Exact

variable {a b : UInt32}

theorem word?_toNat (w : UInt32) : word? w.toNat = some w := by
  have hlt : w.toNat < UInt32.size := w.toNat_lt
  rw [word?, if_pos (by omega), Int.toNat_natCast, UInt32.ofNat_toNat]

theorem sum?_eq (h : a.toNat + b.toNat < UInt32.size) : sum? a b = some (a + b) := by
  rw [sum?, ← word?_toNat (a + b), UInt32.toNat_add, Nat.mod_eq_of_lt h, Int.natCast_add]

theorem difference?_eq (h : b.toNat ≤ a.toNat) : difference? a b = some (a - b) := by
  rw [difference?, ← word?_toNat (a - b),
    UInt32.toNat_sub_of_le _ _ (UInt32.le_iff_toNat_le.mpr h), Int.natCast_sub h]

theorem product?_eq (h : a.toNat * b.toNat < UInt32.size) : product? a b = some (a * b) := by
  rw [product?, ← word?_toNat (a * b), UInt32.toNat_mul, Nat.mod_eq_of_lt h, Int.natCast_mul]

theorem quotient?_eq (h : 0 < b.toNat) : quotient? a b = some (a / b) := by
  have hb : b ≠ 0 := by
    rintro rfl
    exact absurd h (Nat.lt_irrefl 0)
  rw [quotient?, if_neg hb, ← word?_toNat (a / b), UInt32.toNat_div, Int.natCast_ediv]

theorem quotientUp?_eq (h : 0 < b.toNat) : quotientUp? a b = some (divCeil a b) := by
  rw [quotientUp?, quotient?_eq h, divCeil]
  change (if a % b = 0 then some (a / b) else sum? (a / b) 1) = _
  split
  · rfl
  · next hrest =>
      have ha : a.toNat < UInt32.size := a.toNat_lt
      have hdiv := Nat.div_add_mod a.toNat b.toNat
      have hle := Nat.le_mul_of_pos_left (a.toNat / b.toNat) h
      rw [← UInt32.toNat_inj, UInt32.toNat_mod, UInt32.toNat_zero] at hrest
      apply sum?_eq
      rw [UInt32.toNat_div, UInt32.toNat_one]
      omega

end Exact

namespace Reno

variable {c : Connection}

def slowStart? (c : Connection) (acked : UInt32) : Option (UInt32 × Connection) := do
  let wanted := satAdd c.cwnd (satMul acked (unit c))
  let window := min wanted c.ssthresh
  let growth ← difference? window c.cwnd
  let used ← quotientUp? growth (unit c)
  return (satSub acked used, { c with cwnd := window })

def avoidCongestion? (r : Reno) (c : Connection) (acked : UInt32) :
    Option (Reno × Connection) := do
  let held ← quotient? c.cwnd (unit c)
  let window := max held 1
  let (counter, grown) :=
    if window ≤ r.counter then (0, c.grow (unit c)) else (r.counter, c)
  let total := satAdd counter acked
  if window ≤ total then
    let full ← quotient? total window
    let counted ← product? full window
    let rest ← difference? total counted
    return (⟨rest⟩, grown.grow (satMul full (unit c)))
  else return (⟨total⟩, grown)

def acknowledge? (r : Reno) (c : Connection) (acked : UInt32) : Option (Reno × Connection) :=
  if c.phase = .normal ∨ c.phase = .disorder then
    (if c.inSlowStart then slowStart? c acked else some (acked, c)).bind fun (left, started) =>
      if !started.inSlowStart && left != 0 then r.avoidCongestion? started left
      else some (r, started)
  else some (r, c)

theorem slowStart?_eq (h : c.inSlowStart = true) (acked : UInt32) :
    slowStart? c acked = some (slowStart c acked) := by
  have hgrowth : c.cwnd.toNat ≤
      (min (satAdd c.cwnd (satMul acked (unit c))) c.ssthresh).toNat :=
    (slowStart_paid acked (Nat.le_of_lt ((inSlowStart_iff c).mp h))).1
  simp only [slowStart?, difference?_eq hgrowth, quotientUp?_eq (unit_pos c)]
  rfl

/-- The full windows among some segments are no more than the segments, so that
they can be multiplied out and taken away. -/
theorem full_windows_eq (window total : UInt32) :
    product? (total / window) window = some (total / window * window) ∧
      difference? total (total / window * window) = some (total - total / window * window) := by
  have hfull : (total / window).toNat * window.toNat ≤ total.toNat := by
    rw [UInt32.toNat_div]
    exact Nat.div_mul_le_self _ _
  have hword : (total / window).toNat * window.toNat < UInt32.size :=
    Nat.lt_of_le_of_lt hfull total.toNat_lt
  refine ⟨product?_eq hword, difference?_eq ?_⟩
  rw [UInt32.toNat_mul, Nat.mod_eq_of_lt hword]
  exact hfull

theorem avoidCongestion?_eq (r : Reno) (c : Connection) (acked : UInt32) :
    r.avoidCongestion? c acked = some (r.avoidCongestion c acked) := by
  have hwindow : max (c.cwnd / unit c) 1 = segments c := rfl
  have hstale : (if segments c ≤ r.counter then (0, c.grow (unit c)) else (r.counter, c)) =
      (r.carried c, r.advanced c) := by
    unfold carried advanced
    split <;> rfl
  obtain ⟨hcounted, hrest⟩ := full_windows_eq (segments c) (satAdd (r.carried c) acked)
  rw [avoidCongestion_eq, avoidCongestion?, quotient?_eq (unit_pos c)]
  simp only [Option.bind_eq_bind, Option.bind_some, hwindow, hstale]
  rw [quotient?_eq (segments_pos c), Option.bind_some, hcounted, Option.bind_some, hrest,
    Option.bind_some, spread, unit_advanced]
  split <;> rfl

theorem acknowledge?_eq (r : Reno) (c : Connection) (acked : UInt32) :
    r.acknowledge? c acked = some (r.acknowledge c acked) := by
  have hstartup : (if c.inSlowStart then slowStart? c acked else some (acked, c)) =
      some (startup c acked) := by
    unfold startup
    split
    · next hslow => exact slowStart?_eq hslow acked
    · rfl
  unfold acknowledge?
  rw [hstartup]
  split
  · next hphase =>
      rw [acknowledge_eq (growsIn_of hphase), Option.bind_some, steady]
      dsimp only
      rw [avoidCongestion?_eq]
      split <;> rfl
  · next hphase => rw [acknowledge_frozen ((growsIn_eq c.phase).trans (decide_eq_false hphase))]

/-- Slow start in exact numbers, as the segments left over and the connection.
It ends at the sum of the window and all segments, or at the threshold if that is
less, uses up the fewest segments that reach so far, and leaves some over only at
the threshold. -/
structure StartsExactly (c : Connection) (acked : UInt32) (result : UInt32 × Connection) :
    Prop where
  frame : result.2 = { c with cwnd := result.2.cwnd }
  window : result.2.cwnd.toNat =
    min c.ssthresh.toNat (c.cwnd.toNat + acked.toNat * max c.segmentSize.toNat 1)
  left_le : result.1.toNat ≤ acked.toNat
  used : IsLeast {k | result.2.cwnd.toNat ≤ c.cwnd.toNat + k * max c.segmentSize.toNat 1}
    (acked.toNat - result.1.toNat)
  handed : result.1 ≠ 0 → result.2.cwnd = c.ssthresh

theorem isLeast_ceilDiv {part : Nat} (hpart : 0 < part) (start reached : Nat) :
    IsLeast {k | reached ≤ start + k * part} ((reached - start) ⌈/⌉ part) := by
  have hreach (k : Nat) : (reached - start) ⌈/⌉ part ≤ k ↔ reached ≤ start + k * part := by
    rw [ceilDiv_le_iff_le_mul hpart, Nat.sub_le_iff_le_add', Nat.mul_comm]
  exact ⟨(hreach _).mp (Nat.le_refl _), fun k => (hreach k).mpr⟩

theorem startsExactly_startup (h : c.inSlowStart = true) (acked : UInt32) :
    StartsExactly c acked (startup c acked) := by
  have hbelow := Nat.le_of_lt ((inSlowStart_iff c).mp h)
  have hwindow := slowStart_cwnd c acked
  have hleft := slowStart_left acked hbelow
  have hleast := isLeast_ceilDiv (unit_pos c) c.cwnd.toNat (slowStart c acked).2.cwnd.toNat
  rw [← Nat.ceilDiv_eq_add_pred_div] at hleft
  rw [← startup_slow h, toNat_unit] at hwindow hleft hleast
  have hused := hleast.2 (show _ ≤ _ + acked.toNat * _ by omega)
  refine ⟨startup_frame c acked, ?_, ?_, ?_, ?_⟩
  · rw [hwindow, Nat.min_comm]
  · exact startup_left_le c acked
  · rw [hleft, Nat.sub_sub_self hused]
    exact hleast
  · intro hsome
    have hreached := slowStart_finished (startup_slow h acked ▸ finished_of_left hsome)
    rw [toNat_unit] at hreached
    apply UInt32.toNat_inj.mp
    omega

/-- Window and counter after congestion avoidance, in exact numbers: a counter that
fills the window pays for a segment and starts again, and then each full window of
counted segments pays for one segment more. -/
def avoided (size window counter acked : Nat) : Nat × Nat :=
  let held := max 1 (window / size)
  let (carried, paid) := if held ≤ counter then (0, 1) else (counter, 0)
  let total := min (carried + acked) maxCount.toNat
  (min (window + (paid + total / held) * size) maxCount.toNat, total % held)

structure AvoidsExactly (r : Reno) (c : Connection) (acked : UInt32)
    (result : Reno × Connection) : Prop where
  frame : result.2 = { c with cwnd := result.2.cwnd }
  exact : (result.2.cwnd.toNat, result.1.counter.toNat) =
    avoided (max c.segmentSize.toNat 1) c.cwnd.toNat r.counter.toNat acked.toNat
  cwnd_le : c.cwnd.toNat ≤ result.2.cwnd.toNat
  counter_lt : result.1.counter.toNat < max 1 (c.cwnd.toNat / max c.segmentSize.toNat 1)
  counter_lt_grown :
    result.1.counter.toNat < max 1 (result.2.cwnd.toNat / max c.segmentSize.toNat 1)

theorem avoidCongestion_exact (r : Reno) (c : Connection) (acked : UInt32) :
    ((r.avoidCongestion c acked).2.cwnd.toNat, (r.avoidCongestion c acked).1.counter.toNat) =
      avoided (max c.segmentSize.toNat 1) c.cwnd.toNat r.counter.toNat acked.toNat := by
  have hstale : segments c ≤ r.counter ↔
      max 1 (c.cwnd.toNat / max c.segmentSize.toNat 1) ≤ r.counter.toNat := by
    rw [UInt32.le_iff_toNat_le, toNat_segments]
  rw [avoidCongestion_eq, spread_cwnd, spread_counter, unit_advanced, toNat_satAdd, toNat_unit,
    toNat_segments, avoided, carried, advanced, toNat_maxCount]
  by_cases hfull : segments c ≤ r.counter
  · rw [if_pos hfull, if_pos hfull, if_pos (hstale.mp hfull), Connection.grow, toNat_satAdd,
      toNat_unit, UInt32.toNat_zero]
    refine Prod.ext ?_ rfl
    -- the segment that the old counter pays for is clamped before the others are added
    dsimp only
    rw [Nat.add_mul, Nat.one_mul]
    omega
  · rw [if_neg hfull, if_neg hfull, if_neg (mt hstale.mpr hfull)]
    dsimp only
    rw [Nat.zero_add]

theorem avoidsExactly_avoidCongestion (r : Reno) (c : Connection) (acked : UInt32) :
    AvoidsExactly r c acked (r.avoidCongestion c acked) := by
  have hup := (r.avoidCongestion_paid c acked).1
  have hcounter : (r.avoidCongestion c acked).1.counter.toNat < (segments c).toNat := by
    rw [avoidCongestion_eq, spread_counter]
    exact Nat.mod_lt _ (segments_pos c)
  have hheld : c.cwnd.toNat / max c.segmentSize.toNat 1 ≤
      (r.avoidCongestion c acked).2.cwnd.toNat / max c.segmentSize.toNat 1 :=
    Nat.div_le_div_right hup
  rw [toNat_segments] at hcounter
  exact ⟨avoidCongestion_frame r c acked, avoidCongestion_exact r c acked, hup, hcounter,
    by omega⟩

/-- For any windows, segment size, counter and acknowledged segments, every
operation on words gives the exact result or the clamped one. Slow start ends where
the exact numbers say, and congestion avoidance, which gets what is left over at the
threshold, never shrinks the window and leaves less than a window in the counter,
however large that was before. -/
theorem acknowledge_exact (r : Reno) (c : Connection) (acked : UInt32) :
    r.acknowledge? c acked = some (r.acknowledge c acked) ∧
    (c.cwnd < c.ssthresh → StartsExactly c acked (startup c acked)) ∧
    (c.ssthresh ≤ c.cwnd → startup c acked = (acked, c)) ∧
    (c.phase = .normal ∨ c.phase = .disorder →
      ((startup c acked).1 = 0 → r.acknowledge c acked = (r, (startup c acked).2)) ∧
      ((startup c acked).1 ≠ 0 →
        (startup c acked).2.ssthresh ≤ (startup c acked).2.cwnd ∧
        AvoidsExactly r (startup c acked).2 (startup c acked).1 (r.acknowledge c acked))) := by
  refine ⟨acknowledge?_eq r c acked, ?_, ?_, ?_⟩
  · intro hbelow
    exact startsExactly_startup (decide_eq_true hbelow) acked
  · intro hreached
    apply startup_steady
    exact decide_eq_false (UInt32.not_lt.mpr hreached)
  · intro hphase
    rw [acknowledge_eq (growsIn_of hphase)]
    refine ⟨?_, ?_⟩
    · intro hnone
      rw [hnone, steady, bne_self_eq_false, Bool.and_false, if_neg Bool.false_ne_true]
    · intro hsome
      have hslow := finished_of_left hsome
      rw [steady_of_ne_zero hslow hsome]
      exact ⟨UInt32.not_lt.mp (of_decide_eq_false hslow), avoidsExactly_avoidCongestion ..⟩

/-- No segment size is set, so that bytes are counted, and the threshold is close to
the largest window. -/
def unsized : Connection := { Connection.initial 0 4294967290 with ssthresh := 4294967293 }

def crowded : Connection := { Connection.initial 1000 4500 with ssthresh := 4500 }

/-- A counter that is larger than either window: it grows the one by a byte, where
the sum of segments is clamped too, and waits beside the other. -/
theorem acknowledge_exact_staleCounter :
    (unsized.cwnd < unsized.ssthresh ∧ unsized.phase = .normal ∧
      (⟨4294967294⟩ : Reno).acknowledge? unsized 4294967295 =
        some (⟨4294967292⟩, { unsized with cwnd := 4294967294 }) ∧
      StartsExactly unsized 4294967295 (4294967292, { unsized with cwnd := 4294967293 }) ∧
      AvoidsExactly ⟨4294967294⟩ { unsized with cwnd := 4294967293 } 4294967292
        (⟨4294967292⟩, { unsized with cwnd := 4294967294 })) ∧
    (crowded.ssthresh ≤ crowded.cwnd ∧ crowded.phase = .normal ∧
      startup crowded 0 = (0, crowded) ∧
      (⟨4294967294⟩ : Reno).acknowledge crowded 0 = (⟨4294967294⟩, crowded)) := by
  obtain ⟨hexact, hstart, _, hgrow⟩ := acknowledge_exact ⟨4294967294⟩ unsized 4294967295
  obtain ⟨_, _, hsteady, hwait⟩ := acknowledge_exact ⟨4294967294⟩ crowded 0
  have hstartup : startup unsized 4294967295 =
      (4294967292, { unsized with cwnd := 4294967293 }) := by decide
  have hresult : (⟨4294967294⟩ : Reno).acknowledge unsized 4294967295 =
      (⟨4294967292⟩, { unsized with cwnd := 4294967294 }) := by decide
  rw [hstartup] at hstart hgrow
  rw [hresult] at hexact hgrow
  refine ⟨⟨by decide, rfl, hexact, hstart (by decide), ?_⟩, by decide, rfl, ?_, ?_⟩
  · exact ((hgrow (.inl rfl)).2 (by decide)).2
  · exact hsteady (by decide)
  · exact (hwait (.inl rfl)).1 (by decide)

end Reno

end ScalableCongestion
