import ScalableCongestion.Proofs.Session.Step

/-! Reno's side of an acknowledgement in exact numbers: where slow start ends,
how many segments it uses up, and what congestion avoidance makes of the rest. -/
namespace ScalableCongestion

namespace Reno

theorem toNat_unit (c : Connection) : (unit c).toNat = max c.segmentSize.toNat 1 :=
  toNat_max ..

theorem unit_pos (c : Connection) : 0 < (unit c).toNat := by
  rw [toNat_unit]
  omega

theorem segments_pos (c : Connection) : 0 < (segments c).toNat := by
  rw [segments, toNat_max, UInt32.toNat_one]
  omega

theorem toNat_segments (c : Connection) :
    (segments c).toNat = max 1 (c.cwnd.toNat / max c.segmentSize.toNat 1) := by
  rw [segments, toNat_max, UInt32.toNat_div, toNat_unit, UInt32.toNat_one, Nat.max_comm]

theorem inSlowStart_iff (c : Connection) :
    c.inSlowStart = true ↔ c.cwnd.toNat < c.ssthresh.toNat := by
  rw [Connection.inSlowStart, decide_eq_true_iff, UInt32.lt_iff_toNat_lt]

theorem slowStart_cwnd (c : Connection) (acked : UInt32) :
    (slowStart c acked).2.cwnd.toNat =
      min (c.cwnd.toNat + acked.toNat * (unit c).toNat) c.ssthresh.toNat := by
  have hthreshold := c.ssthresh.toNat_lt
  have hcwnd := c.cwnd.toNat_lt
  simp only [slowStart, toNat_min, toNat_satAdd, toNat_satMul]
  omega

theorem slowStart_left {c : Connection} (acked : UInt32) (h : c.cwnd.toNat ≤ c.ssthresh.toNat) :
    (slowStart c acked).1.toNat = acked.toNat -
      ((slowStart c acked).2.cwnd.toNat - c.cwnd.toNat + (unit c).toNat - 1) / (unit c).toNat := by
  have hgrowth : ((slowStart c acked).2.cwnd - c.cwnd).toNat =
      (slowStart c acked).2.cwnd.toNat - c.cwnd.toNat := by
    apply UInt32.toNat_sub_of_le
    rw [UInt32.le_iff_toNat_le, slowStart_cwnd]
    omega
  rw [← hgrowth, ← toNat_divCeil (unit_pos c), ← toNat_satSub]
  rfl

theorem slowStart_paid {c : Connection} (acked : UInt32) (h : c.cwnd.toNat ≤ c.ssthresh.toNat) :
    c.cwnd.toNat ≤ (slowStart c acked).2.cwnd.toNat ∧
      (slowStart c acked).2.cwnd.toNat + (unit c).toNat * (slowStart c acked).1.toNat ≤
        c.cwnd.toNat + (unit c).toNat * acked.toNat := by
  have hcwnd := slowStart_cwnd c acked
  have hleft := slowStart_left acked h
  generalize (slowStart c acked).2.cwnd.toNat = window at hcwnd hleft ⊢
  generalize (slowStart c acked).1.toNat = left at hleft ⊢
  have hpos := unit_pos c
  generalize (unit c).toNat = unit at *
  have hgrowth : window - c.cwnd.toNat ≤ acked.toNat * unit := by omega
  have hup : c.cwnd.toNat ≤ window := by omega
  have hceil := Nat.div_add_mod (window - c.cwnd.toNat + unit - 1) unit
  have hmod := Nat.mod_lt (window - c.cwnd.toNat + unit - 1) hpos
  have hused : (window - c.cwnd.toNat + unit - 1) / unit ≤ acked.toNat := by
    apply Nat.le_of_lt_succ
    rw [Nat.div_lt_iff_lt_mul hpos, Nat.succ_mul]
    omega
  have hsplit : unit * acked.toNat =
      unit * ((window - c.cwnd.toNat + unit - 1) / unit) + unit * left := by
    rw [← Nat.mul_add, hleft, Nat.add_sub_cancel' hused]
  omega

/-- The part of the counter that is still to be counted: a counter that fills
the window pays for one segment first. -/
def carried (r : Reno) (c : Connection) : UInt32 :=
  if segments c ≤ r.counter then 0 else r.counter

def advanced (r : Reno) (c : Connection) : Connection :=
  if segments c ≤ r.counter then c.grow (unit c) else c

/-- Grows by a segment for each full window among `total` segments. -/
def spread (window total : UInt32) (c : Connection) : Reno × Connection :=
  if window ≤ total then
    (⟨total - total / window * window⟩, c.grow (satMul (total / window) (unit c)))
  else (⟨total⟩, c)

theorem avoidCongestion_eq (r : Reno) (c : Connection) (acked : UInt32) :
    r.avoidCongestion c acked =
      spread (segments c) (satAdd (r.carried c) acked) (r.advanced c) := by
  unfold avoidCongestion carried advanced
  by_cases hfull : segments c ≤ r.counter
  · simp only [hfull, ↓reduceIte]
    rfl
  · simp only [hfull, ↓reduceIte]
    rfl

theorem spread_counter (window total : UInt32) (c : Connection) :
    (spread window total c).1.counter.toNat = total.toNat % window.toNat := by
  have hdiv := Nat.div_add_mod' total.toNat window.toNat
  have hmul : (total / window * window).toNat =
      total.toNat / window.toNat * window.toNat := by
    rw [UInt32.toNat_mul, UInt32.toNat_div, Nat.mod_eq_of_lt]
    have := total.toNat_lt
    omega
  unfold spread
  split
  · rw [UInt32.toNat_sub_of_le _ _ (UInt32.le_iff_toNat_le.mpr (by omega)), hmul]
    omega
  · next hless =>
      rw [UInt32.le_iff_toNat_le, Nat.not_le] at hless
      exact (Nat.mod_eq_of_lt hless).symm

theorem spread_cwnd (window total : UInt32) (c : Connection) :
    (spread window total c).2.cwnd.toNat =
      min (c.cwnd.toNat + total.toNat / window.toNat * (unit c).toNat) 4294967295 := by
  unfold spread
  split
  · rw [Connection.grow, toNat_satAdd, toNat_satMul, UInt32.toNat_div]
    omega
  · next hless =>
      have hcwnd := c.cwnd.toNat_lt
      rw [UInt32.le_iff_toNat_le, Nat.not_le] at hless
      rw [Nat.div_eq_of_lt hless, Nat.zero_mul]
      exact (Nat.min_eq_left (Nat.le_pred_of_lt hcwnd)).symm

theorem spread_frame (window total : UInt32) (c : Connection) :
    (spread window total c).2 = { c with cwnd := (spread window total c).2.cwnd } := by
  unfold spread
  split <;> rfl

theorem unit_advanced (r : Reno) (c : Connection) : unit (r.advanced c) = unit c := by
  unfold advanced
  split <;> rfl

theorem spread_paid {window : UInt32} (hwindow : 0 < window.toNat) (total : UInt32)
    (c : Connection) :
    c.cwnd.toNat ≤ (spread window total c).2.cwnd.toNat ∧
      (spread window total c).2.cwnd.toNat +
          (unit c).toNat * (spread window total c).1.counter.toNat ≤
        c.cwnd.toNat + (unit c).toNat * total.toNat := by
  have hcwnd := c.cwnd.toNat_lt
  have hfull : total.toNat / window.toNat ≤ window.toNat * (total.toNat / window.toNat) :=
    Nat.le_mul_of_pos_left _ hwindow
  have hgrowth := Nat.mul_le_mul_left (unit c).toNat hfull
  have hsplit := congrArg ((unit c).toNat * ·) (Nat.div_add_mod total.toNat window.toNat)
  simp only [Nat.mul_add] at hsplit
  rw [spread_cwnd, spread_counter, Nat.mul_comm (total.toNat / window.toNat)]
  omega

theorem advanced_paid (r : Reno) (c : Connection) :
    c.cwnd.toNat ≤ (r.advanced c).cwnd.toNat ∧
      (r.advanced c).cwnd.toNat + (unit c).toNat * (r.carried c).toNat ≤
        c.cwnd.toNat + (unit c).toNat * r.counter.toNat := by
  unfold advanced carried
  split
  · next hfull =>
      have hcwnd := c.cwnd.toNat_lt
      have hwindow := segments_pos c
      rw [UInt32.le_iff_toNat_le] at hfull
      have hpays : (unit c).toNat * 1 ≤ (unit c).toNat * r.counter.toNat :=
        Nat.mul_le_mul_left _ (by omega)
      rw [Connection.grow, toNat_satAdd, UInt32.toNat_zero]
      omega
  · exact ⟨Nat.le_refl _, Nat.le_refl _⟩

theorem avoidCongestion_paid (r : Reno) (c : Connection) (acked : UInt32) :
    c.cwnd.toNat ≤ (r.avoidCongestion c acked).2.cwnd.toNat ∧
      (r.avoidCongestion c acked).2.cwnd.toNat +
          (unit c).toNat * (r.avoidCongestion c acked).1.counter.toNat ≤
        c.cwnd.toNat + (unit c).toNat * (r.counter.toNat + acked.toNat) := by
  have hadvanced := r.advanced_paid c
  have hspread := spread_paid (segments_pos c) (satAdd (r.carried c) acked) (r.advanced c)
  have htotal : (satAdd (r.carried c) acked).toNat ≤ (r.carried c).toNat + acked.toNat := by
    rw [toNat_satAdd]
    exact Nat.min_le_left _ _
  have hmul := Nat.mul_le_mul_left (unit c).toNat htotal
  rw [unit_advanced] at hspread
  rw [avoidCongestion_eq, Nat.mul_add]
  rw [Nat.mul_add] at hmul
  omega

theorem avoidCongestion_frame (r : Reno) (c : Connection) (acked : UInt32) :
    (r.avoidCongestion c acked).2 = { c with cwnd := (r.avoidCongestion c acked).2.cwnd } := by
  rw [avoidCongestion_eq, spread_frame]
  unfold advanced
  split <;> rfl

theorem growsIn_eq (phase : Phase) :
    growsIn phase = decide (phase = .normal ∨ phase = .disorder) := by
  cases phase <;> rfl

theorem growsIn_of {phase : Phase} (h : phase = .normal ∨ phase = .disorder) :
    growsIn phase = true :=
  (growsIn_eq phase).trans (decide_eq_true h)

/-- The slow-start part of an acknowledgement: the segments left over, and the
connection. -/
def startup (c : Connection) (acked : UInt32) : UInt32 × Connection :=
  if c.inSlowStart then slowStart c acked else (acked, c)

def steady (r : Reno) (c : Connection) (left : UInt32) : Reno × Connection :=
  if !c.inSlowStart && left != 0 then r.avoidCongestion c left else (r, c)

theorem acknowledge_eq {c : Connection} (h : growsIn c.phase = true) (r : Reno)
    (acked : UInt32) :
    r.acknowledge c acked = r.steady (startup c acked).2 (startup c acked).1 := by
  rw [acknowledge, if_pos h]
  rfl

theorem acknowledge_frozen {c : Connection} (h : growsIn c.phase = false) (r : Reno)
    (acked : UInt32) : r.acknowledge c acked = (r, c) := by
  rw [acknowledge, if_neg (Bool.not_eq_true _ ▸ h)]

section Stages

variable {r : Reno} {c : Connection} {acked left : UInt32}

theorem startup_steady (h : c.inSlowStart = false) (acked : UInt32) :
    startup c acked = (acked, c) := by
  rw [startup, h, if_neg Bool.false_ne_true]

theorem startup_slow (h : c.inSlowStart = true) (acked : UInt32) :
    startup c acked = slowStart c acked := if_pos h

/-- Slow start pays for each segment up to the threshold, and takes a part of a
segment for a whole one. -/
theorem slowStart_used (h : c.inSlowStart = true) (acked : UInt32) :
    (slowStart c acked).1.toNat = acked.toNat -
      (min (c.cwnd.toNat + acked.toNat * (unit c).toNat) c.ssthresh.toNat - c.cwnd.toNat +
        (unit c).toNat - 1) / (unit c).toNat := by
  rw [slowStart_left acked (Nat.le_of_lt ((inSlowStart_iff c).mp h)), slowStart_cwnd]

theorem startup_left_le (c : Connection) (acked : UInt32) :
    (startup c acked).1.toNat ≤ acked.toNat := by
  cases h : c.inSlowStart with
  | false =>
      apply Nat.le_of_eq
      rw [startup_steady h]
  | true =>
      rw [startup_slow h, slowStart_used h]
      exact Nat.sub_le _ _

theorem startup_left_eq_zero (h : c.inSlowStart = true)
    (hbelow : c.cwnd.toNat + acked.toNat * (unit c).toNat < c.ssthresh.toNat + (unit c).toNat) :
    (startup c acked).1 = 0 := by
  have hpos := unit_pos c
  have hslow := (inSlowStart_iff c).mp h
  rw [startup_slow h, ← UInt32.toNat_inj, slowStart_used h, UInt32.toNat_zero]
  apply Nat.sub_eq_zero_of_le
  rw [Nat.le_div_iff_mul_le hpos]
  omega

theorem unit_slowStart (c : Connection) (acked : UInt32) : unit (slowStart c acked).2 = unit c :=
  rfl

theorem slowStart_ssthresh (c : Connection) (acked : UInt32) :
    (slowStart c acked).2.ssthresh = c.ssthresh := rfl

theorem slowStart_unfinished (h : (slowStart c acked).2.inSlowStart = true) :
    (slowStart c acked).2.cwnd.toNat = c.cwnd.toNat + acked.toNat * (unit c).toNat ∧
      c.cwnd.toNat + acked.toNat * (unit c).toNat < c.ssthresh.toNat := by
  have hcwnd := slowStart_cwnd c acked
  rw [inSlowStart_iff, slowStart_ssthresh] at h
  omega

theorem slowStart_finished (h : (slowStart c acked).2.inSlowStart = false) :
    c.ssthresh.toNat ≤ c.cwnd.toNat + acked.toNat * (unit c).toNat := by
  have hcwnd := slowStart_cwnd c acked
  rw [← Bool.not_eq_true, inSlowStart_iff, slowStart_ssthresh] at h
  omega

theorem left_of_unfinished (h : (startup c acked).2.inSlowStart = true) :
    (startup c acked).1 = 0 := by
  cases hslow : c.inSlowStart with
  | false =>
      rw [startup_steady hslow, hslow] at h
      contradiction
  | true =>
      rw [startup_slow hslow] at h
      obtain ⟨_, hbelow⟩ := slowStart_unfinished h
      exact startup_left_eq_zero hslow (Nat.lt_add_right _ hbelow)

theorem finished_of_left (h : (startup c acked).1 ≠ 0) :
    (startup c acked).2.inSlowStart = false := by
  rw [← Bool.not_eq_true]
  exact mt left_of_unfinished h

theorem steady_of_ne_zero (hslow : c.inSlowStart = false) (hleft : left ≠ 0) :
    r.steady c left = r.avoidCongestion c left := by
  rw [steady, hslow, bne_iff_ne.mpr hleft]
  rfl

end Stages

theorem startup_frame (c : Connection) (acked : UInt32) :
    (startup c acked).2 = { c with cwnd := (startup c acked).2.cwnd } := by
  unfold startup
  split <;> rfl

theorem steady_frame (r : Reno) (c : Connection) (left : UInt32) :
    (r.steady c left).2 = { c with cwnd := (r.steady c left).2.cwnd } := by
  unfold steady
  split
  · exact avoidCongestion_frame ..
  · rfl

theorem acknowledge_frame (r : Reno) (c : Connection) (acked : UInt32) :
    (r.acknowledge c acked).2 = { c with cwnd := (r.acknowledge c acked).2.cwnd } := by
  cases h : growsIn c.phase with
  | false => rw [acknowledge_frozen h]
  | true =>
      rw [acknowledge_eq h, steady_frame, startup_frame]

theorem startup_paid (c : Connection) (acked : UInt32) :
    c.cwnd.toNat ≤ (startup c acked).2.cwnd.toNat ∧
      (startup c acked).2.cwnd.toNat + (unit c).toNat * (startup c acked).1.toNat ≤
        c.cwnd.toNat + (unit c).toNat * acked.toNat := by
  unfold startup
  split
  · next hslow =>
      have hbelow := UInt32.lt_iff_toNat_lt.mp (of_decide_eq_true hslow)
      exact slowStart_paid acked (Nat.le_of_lt hbelow)
  · exact ⟨Nat.le_refl _, Nat.le_refl _⟩

theorem steady_paid (r : Reno) (c : Connection) (left : UInt32) :
    c.cwnd.toNat ≤ (r.steady c left).2.cwnd.toNat ∧
      (r.steady c left).2.cwnd.toNat + (unit c).toNat * (r.steady c left).1.counter.toNat ≤
        c.cwnd.toNat + (unit c).toNat * (r.counter.toNat + left.toNat) := by
  unfold steady
  split
  · exact r.avoidCongestion_paid c left
  · rw [Nat.mul_add]
    exact ⟨Nat.le_refl _, Nat.add_le_add_left (Nat.le_add_right _ _) _⟩

/-- Growth and counter together are paid for by the acknowledged segments and
the counter before. -/
theorem acknowledge_paid {c : Connection} (h : growsIn c.phase = true) (r : Reno)
    (acked : UInt32) :
    c.cwnd.toNat ≤ (r.acknowledge c acked).2.cwnd.toNat ∧
      (r.acknowledge c acked).2.cwnd.toNat +
          (unit c).toNat * (r.acknowledge c acked).1.counter.toNat ≤
        c.cwnd.toNat + (unit c).toNat * (r.counter.toNat + acked.toNat) := by
  have hunit : unit (startup c acked).2 = unit c := by
    rw [startup_frame]
    rfl
  have hstartup := startup_paid c acked
  have hsteady := r.steady_paid (startup c acked).2 (startup c acked).1
  rw [hunit, Nat.mul_add] at hsteady
  rw [acknowledge_eq h, Nat.mul_add]
  omega

end Reno

namespace Session

theorem signal_reno {s : Session} {r : Reno} (hr : s.controller = .reno r) (event : Signal) :
    s.signal event =
      { s with
        controller := .reno (r.signal s.connection event).1
        connection := (r.signal s.connection event).2 } := by
  simp only [signal, hr, Controller.signal, Option.toList_none, List.append_nil]

end Session

theorem Controller.acknowledge?_reno {r : Reno} {c : Connection} {a : Acknowledgement}
    {controller : Controller} {connection : Connection}
    (h : (Controller.reno r).acknowledge? c a = some (controller, connection)) :
    controller = .reno (r.acknowledge c a.segments).1 ∧
      connection = (r.acknowledge c a.segments).2 := by
  have hpair := Option.some.inj h
  exact ⟨(congrArg Prod.fst hpair).symm, (congrArg Prod.snd hpair).symm⟩

end ScalableCongestion
