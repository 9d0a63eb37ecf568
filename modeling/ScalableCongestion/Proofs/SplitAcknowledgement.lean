import ScalableCongestion.Proofs.Control.Reno

/-! Acknowledgements that arrive in two parts. Slow start always takes two parts
as it takes the whole. Congestion avoidance takes what is left over as long as the
first part fills no window: then the segments only move into the counter, and the
second part finds them there. -/
namespace ScalableCongestion.Reno

variable {r : Reno} {c : Connection} {first second left more : UInt32}

theorem toNat_add_of_le {a b : UInt32} (h : a.toNat + b.toNat ≤ 4294967295) :
    (a + b).toNat = a.toNat + b.toNat := by
  rw [UInt32.toNat_add, Nat.mod_eq_of_lt (Nat.lt_succ_of_le h)]

theorem slowStart_add_unfinished (h : (slowStart c first).2.inSlowStart = true)
    (hfits : first.toNat + second.toNat ≤ 4294967295) :
    slowStart c (first + second) = slowStart (slowStart c first).2 second := by
  obtain ⟨hgrown, hbelow⟩ := slowStart_unfinished h
  have hpos := unit_pos c
  have hsum := toNat_add_of_le hfits
  have hslow : c.inSlowStart = true := by
    rw [inSlowStart_iff]
    exact Nat.lt_of_le_of_lt (Nat.le_add_right _ _) hbelow
  have hsplit : (first.toNat + second.toNat) * (unit c).toNat =
      first.toNat * (unit c).toNat + second.toNat * (unit c).toNat := Nat.add_mul _ _ _
  have hwindow : (slowStart c (first + second)).2.cwnd =
      (slowStart (slowStart c first).2 second).2.cwnd := by
    rw [← UInt32.toNat_inj, slowStart_cwnd, slowStart_cwnd, unit_slowStart, slowStart_ssthresh,
      hgrown, hsum, hsplit, Nat.add_assoc]
  have hleft : (slowStart c (first + second)).1 = (slowStart (slowStart c first).2 second).1 := by
    rw [← UInt32.toNat_inj, slowStart_used hslow, slowStart_used h, unit_slowStart,
      slowStart_ssthresh, hgrown, hsum, hsplit, ← Nat.add_assoc]
    generalize hreached : min (c.cwnd.toNat + first.toNat * (unit c).toNat +
      second.toNat * (unit c).toNat) c.ssthresh.toNat = reached
    have hceil : reached - c.cwnd.toNat + (unit c).toNat - 1 =
        reached - (c.cwnd.toNat + first.toNat * (unit c).toNat) + (unit c).toNat - 1 +
          first.toNat * (unit c).toNat := by
      omega
    rw [hceil, Nat.add_mul_div_right _ _ hpos]
    omega
  refine Prod.ext hleft ?_
  exact congrArg (fun window => { c with cwnd := window }) hwindow

theorem slowStart_add_finished (hslow : c.inSlowStart = true)
    (h : (slowStart c first).2.inSlowStart = false)
    (hfits : first.toNat + second.toNat ≤ 4294967295) :
    slowStart c (first + second) = ((slowStart c first).1 + second, (slowStart c first).2) := by
  have hreached := slowStart_finished h
  have hpos := unit_pos c
  have hbelow := (inSlowStart_iff c).mp hslow
  have hsum := toNat_add_of_le hfits
  have hsplit : (first.toNat + second.toNat) * (unit c).toNat =
      first.toNat * (unit c).toNat + second.toNat * (unit c).toNat := Nat.add_mul _ _ _
  have hfirst : min (c.cwnd.toNat + first.toNat * (unit c).toNat) c.ssthresh.toNat =
      c.ssthresh.toNat := Nat.min_eq_right hreached
  have hwhole : min (c.cwnd.toNat + (first.toNat + second.toNat) * (unit c).toNat)
      c.ssthresh.toNat = c.ssthresh.toNat := by
    omega
  have hwindow : (slowStart c (first + second)).2.cwnd = (slowStart c first).2.cwnd := by
    rw [← UInt32.toNat_inj, slowStart_cwnd, slowStart_cwnd, hsum, hwhole, hfirst]
  have hused : (c.ssthresh.toNat - c.cwnd.toNat + (unit c).toNat - 1) / (unit c).toNat ≤
      first.toNat := by
    rw [Nat.div_le_iff_le_mul_add_pred hpos, Nat.mul_comm]
    omega
  have hleft : (slowStart c (first + second)).1 = (slowStart c first).1 + second := by
    rw [← UInt32.toNat_inj, UInt32.toNat_add, slowStart_used hslow, slowStart_used hslow, hsum,
      hwhole, hfirst]
    generalize (c.ssthresh.toNat - c.cwnd.toNat + (unit c).toNat - 1) / (unit c).toNat = used
      at hused ⊢
    omega
  refine Prod.ext hleft ?_
  exact congrArg (fun window => { c with cwnd := window }) hwindow

theorem startup_add (hfits : first.toNat + second.toNat ≤ 4294967295) :
    startup c (first + second) =
      ((startup c first).1 + (startup (startup c first).2 second).1,
        (startup (startup c first).2 second).2) := by
  cases hslow : c.inSlowStart with
  | false =>
      rw [startup_steady hslow, startup_steady hslow, startup_steady hslow]
  | true =>
      cases h : (slowStart c first).2.inSlowStart with
      | false =>
          rw [startup_slow hslow, startup_slow hslow, startup_steady h]
          exact slowStart_add_finished hslow h hfits
      | true =>
          have hused : (startup c first).1 = 0 := by
            apply left_of_unfinished
            rw [startup_slow hslow, h]
          rw [hused, UInt32.zero_add, startup_slow hslow, startup_slow hslow, startup_slow h]
          exact slowStart_add_unfinished h hfits

/-- Segments that add to the counter and fill no window. -/
def Pending (r : Reno) (c : Connection) (left : UInt32) : Prop :=
  left = 0 ∨ r.counter.toNat + left.toNat < max 1 (c.cwnd.toNat / max c.segmentSize.toNat 1)

theorem lt_segments_of_pending (h : r.Pending c left) (hleft : left ≠ 0) :
    r.counter.toNat + left.toNat < (segments c).toNat := by
  rw [toNat_segments]
  exact h.resolve_left hleft

/-- A counter below the window and the segments that come to it are one total. -/
theorem avoidCongestion_below (h : r.counter.toNat < (segments c).toNat) (acked : UInt32) :
    r.avoidCongestion c acked = spread (segments c) (satAdd r.counter acked) c := by
  have hbelow : ¬segments c ≤ r.counter := by
    rw [UInt32.le_iff_toNat_le]
    omega
  rw [avoidCongestion_eq, carried, advanced, if_neg hbelow, if_neg hbelow]

theorem satAdd_assoc {a b d : UInt32} (hab : a.toNat + b.toNat ≤ 4294967295)
    (hbd : b.toNat + d.toNat ≤ 4294967295) : satAdd (a + b) d = satAdd a (b + d) := by
  rw [← UInt32.toNat_inj, toNat_satAdd, toNat_satAdd, toNat_add_of_le hab, toNat_add_of_le hbd,
    Nat.add_assoc]

theorem steady_pending (h : r.Pending c left) (hleft : c.inSlowStart = true → left = 0) :
    r.steady c left = (⟨r.counter + left⟩, c) := by
  by_cases hzero : left = 0
  · rw [steady, hzero, UInt32.add_zero, bne_self_eq_false, Bool.and_false,
      if_neg Bool.false_ne_true]
  · have hslow : c.inSlowStart = false := by
      rw [← Bool.not_eq_true]
      exact mt hleft hzero
    have hfew := lt_segments_of_pending h hzero
    have hwindow := (segments c).toNat_lt
    have hsum : (r.counter + left).toNat = r.counter.toNat + left.toNat :=
      toNat_add_of_le (by omega)
    have htotal : satAdd r.counter left = r.counter + left := by
      rw [← UInt32.toNat_inj, toNat_satAdd, hsum]
      omega
    have hshort : ¬segments c ≤ r.counter + left := by
      rw [UInt32.le_iff_toNat_le, hsum]
      omega
    rw [steady_of_ne_zero hslow hzero,
      avoidCongestion_below (Nat.lt_of_le_of_lt (Nat.le_add_right _ _) hfew), htotal, spread,
      if_neg hshort]

/-- Congestion avoidance finds in the counter what the first part has put there. -/
theorem steady_add (h : r.Pending c left) (hslow : c.inSlowStart = false)
    (hfits : left.toNat + more.toNat ≤ 4294967295) :
    (⟨r.counter + left⟩ : Reno).steady c more = r.steady c (left + more) := by
  -- congestion avoidance is not entered for no segments at all
  by_cases hzero : left = 0
  · rw [hzero, UInt32.add_zero, UInt32.zero_add]
  by_cases hnone : more = 0
  · have hsteady : r.steady c left = (⟨r.counter + left⟩, c) := by
      apply steady_pending h
      rw [hslow]
      exact fun hslow => absurd hslow Bool.false_ne_true
    rw [hnone, UInt32.add_zero, hsteady, steady_pending (.inl rfl) fun _ => rfl, UInt32.add_zero]
  · have hfew := lt_segments_of_pending h hzero
    have hwindow := (segments c).toNat_lt
    have hcounter : r.counter.toNat + left.toNat ≤ 4294967295 := by omega
    have hsome : left + more ≠ 0 := by
      rw [ne_eq, ← UInt32.toNat_inj, toNat_add_of_le hfits, UInt32.toNat_zero]
      rw [← UInt32.toNat_inj, UInt32.toNat_zero] at hzero
      omega
    rw [steady_of_ne_zero hslow hnone, steady_of_ne_zero hslow hsome,
      avoidCongestion_below (toNat_add_of_le hcounter ▸ hfew),
      avoidCongestion_below (Nat.lt_of_le_of_lt (Nat.le_add_right _ _) hfew),
      satAdd_assoc hcounter hfits]

theorem acknowledge_add (hfits : first.toNat + second.toNat ≤ 4294967295)
    (h : c.phase = .normal ∨ c.phase = .disorder →
      r.Pending (startup c first).2 (startup c first).1) :
    (r.acknowledge c first).1.acknowledge (r.acknowledge c first).2 second =
      r.acknowledge c (first + second) := by
  cases hgrows : growsIn c.phase with
  | false =>
      rw [acknowledge_frozen hgrows, acknowledge_frozen hgrows, acknowledge_frozen hgrows]
  | true =>
      have hpending := h (of_decide_eq_true ((growsIn_eq c.phase).symm.trans hgrows))
      have hphase : growsIn (startup c first).2.phase = true := by
        rw [startup_frame]
        exact hgrows
      rw [acknowledge_eq hgrows, acknowledge_eq hgrows, startup_add hfits,
        steady_pending hpending left_of_unfinished, acknowledge_eq hphase]
      cases hslow : (startup c first).2.inSlowStart with
      | true =>
          -- all of the first part is used, so the counter is as it was
          rw [left_of_unfinished hslow, UInt32.add_zero, UInt32.zero_add]
      | false =>
          have hleft := startup_left_le c first
          have hrest : (startup c first).1.toNat + second.toNat ≤ 4294967295 := by omega
          rw [startup_steady hslow]
          exact steady_add hpending hslow hrest

/-- Two acknowledgements leave the connection and the counter that one for all
their segments leaves, if what slow start leaves over from the first fills no
window. Nothing is left over if its last segment begins below the threshold. -/
theorem acknowledge_split (r : Reno) (c : Connection) {first second : UInt32}
    (hfits : first.toNat + second.toNat ≤ 4294967295) :
    ((c.phase = .normal ∨ c.phase = .disorder →
        r.Pending (startup c first).2 (startup c first).1) →
      (r.acknowledge c first).1.acknowledge (r.acknowledge c first).2 second =
        r.acknowledge c (first + second)) ∧
    (c.inSlowStart = true →
      c.cwnd.toNat + first.toNat * (unit c).toNat < c.ssthresh.toNat + (unit c).toNat →
      (r.acknowledge c first).1.acknowledge (r.acknowledge c first).2 second =
        r.acknowledge c (first + second)) := by
  refine ⟨acknowledge_add hfits, fun hslow hbelow => ?_⟩
  exact acknowledge_add hfits fun _ => .inl (startup_left_eq_zero hslow hbelow)

def landing : Connection := { Connection.initial 1000 1000 with ssthresh := 4500 }

def landed : Connection := { landing with cwnd := 4500 }

def widest : Connection := { landing with cwnd := 4294966500 }

theorem acknowledge_split_landing :
    (landing.inSlowStart = true ∧
      landing.cwnd.toNat + (4 : UInt32).toNat * (unit landing).toNat <
        landing.ssthresh.toNat + (unit landing).toNat ∧
      ((⟨3⟩ : Reno).acknowledge landing 4).1.acknowledge ((⟨3⟩ : Reno).acknowledge landing 4).2 5 =
        (⟨3⟩ : Reno).acknowledge landing 9 ∧
      (⟨3⟩ : Reno).acknowledge landing 9 = (⟨0⟩, { landing with cwnd := 6500 })) ∧
    ((⟨1⟩ : Reno).Pending (startup landed 2).2 (startup landed 2).1 ∧
      ((⟨1⟩ : Reno).acknowledge landed 2).1.acknowledge ((⟨1⟩ : Reno).acknowledge landed 2).2 2 =
        (⟨1⟩ : Reno).acknowledge landed 4 ∧
      (⟨1⟩ : Reno).acknowledge landed 4 = (⟨1⟩, { landed with cwnd := 5500 })) ∧
    ((⟨0⟩ : Reno).Pending (startup widest 4294965).2 (startup widest 4294965).1 ∧
      ((⟨0⟩ : Reno).acknowledge widest 4294965).1.acknowledge
          ((⟨0⟩ : Reno).acknowledge widest 4294965).2 4290672330 =
        (⟨0⟩ : Reno).acknowledge widest 4294967295 ∧
      (⟨0⟩ : Reno).acknowledge widest 4294967295 = (⟨1295⟩, { widest with cwnd := maxCount })) := by
  have hslow : landing.inSlowStart = true := by decide
  have hbelow : landing.cwnd.toNat + (4 : UInt32).toNat * (unit landing).toNat <
      landing.ssthresh.toNat + (unit landing).toNat := by decide
  have hpending : (⟨1⟩ : Reno).Pending (startup landed 2).2 (startup landed 2).1 :=
    .inr (by decide)
  have hwidest : (⟨0⟩ : Reno).Pending (startup widest 4294965).2 (startup widest 4294965).1 :=
    .inr (by decide)
  refine ⟨⟨hslow, hbelow, ?_, by decide⟩, ⟨hpending, ?_, by decide⟩, ⟨hwidest, ?_, by decide⟩⟩
  · exact (acknowledge_split ⟨3⟩ landing (by decide)).2 hslow hbelow
  · exact (acknowledge_split ⟨1⟩ landed (by decide)).1 fun _ => hpending
  · exact (acknowledge_split ⟨0⟩ widest (by decide)).1 fun _ => hwidest

/-- A first part that fills a window makes the next window longer. -/
example :
    ((⟨3⟩ : Reno).acknowledge landed 1).1.acknowledge ((⟨3⟩ : Reno).acknowledge landed 1).2 4 ≠
      (⟨3⟩ : Reno).acknowledge landed 5 := by
  decide

end ScalableCongestion.Reno
