import ScalableCongestion.Proofs.Control.Growth
import ScalableCongestion.Proofs.DelayBounds
import ScalableCongestion.Proofs.WindowFloor

/-! How Prague's window grows in normal operation. Every acknowledgement adds a
segment's share of the window, computed in doubles, and what it adds is the share
in whole numbers. A window never falls below one segment, so no share is more than
that. -/
namespace ScalableCongestion

/-- A window that an acknowledgement has grown by a segment's share of it. -/
structure GrownByShare (segmentSize before after : UInt32) : Prop where
  sum : after.toNat = min 4294967295 (before.toNat + (Prague.growth segmentSize before).toNat)
  least : 1 ≤ (Prague.growth segmentSize before).toNat
  most : (Prague.growth segmentSize before).toNat ≤ segmentSize.toNat
  strict : before.toNat < 4294967295 → before.toNat < after.toNat
  step : after.toNat ≤ before.toNat + segmentSize.toNat
  /-- up to 94906265 bytes a segment -/
  exact : segmentSize.toNat * segmentSize.toNat < 2 ^ 53 →
    (Prague.growth segmentSize before).toNat =
      max 1 (segmentSize.toNat * segmentSize.toNat / before.toNat)
  quotient : segmentSize.toNat * segmentSize.toNat < 2 ^ 53 →
    ∃ q, Denotes (Prague.share segmentSize before) q ∧
      ⌊q⌋₊ = segmentSize.toNat * segmentSize.toNat / before.toNat

theorem grownByShare {segmentSize before : UInt32} (hpos : 0 < segmentSize.toNat)
    (hwindow : segmentSize.toNat ≤ before.toNat) :
    GrownByShare segmentSize before (satAdd before (Prague.growth segmentSize before)) := by
  obtain ⟨hleast, hmost⟩ := Prague.growth_bounds hpos hwindow
  have hsum := toNat_satAdd before (Prague.growth segmentSize before)
  refine ⟨?_, hleast, hmost, ?_, ?_, Prague.growth_exact hpos hwindow, ?_⟩
  · rw [hsum, Nat.min_comm]
  · omega
  · omega
  · intro hsquare
    exact Prague.floor_share hsquare (hpos.trans_le hwindow)

namespace Session

variable {s next : Session} {packet : Option ControlPacket}

theorem cwnd_of_acknowledge {p : Prague} (hp : s.controller = .prague p)
    (hphase : s.connection.phase = .normal) {segments bytes : UInt32} {rtt : Duration}
    (hstep : s.step? (.acknowledge segments rtt bytes) = some (packet, next)) :
    next.connection.cwnd =
      satAdd s.connection.cwnd
        (Prague.growth s.connection.segmentSize s.connection.cwnd) := by
  cases effect_of_step? hstep with
  | acknowledge _ _ _ averages srtt controller connection _ controlled =>
      rw [hp] at controlled
      obtain ⟨_, _, hacknowledge⟩ := Controller.acknowledge?_prague controlled
      rcases Prague.acknowledge?_eq_some hacknowledge with
        ⟨hrecovering, _, _⟩ | ⟨_, _, _, _, _, hgrown⟩
      · rw [Connection.timed_phase, hphase] at hrecovering
        contradiction
      · rw [hgrown, Prague.grown_normal (c := s.connection.timed srtt) hphase]
        rfl

theorem answered_of_brief {start : Session} (hrtt : start.rtt = .initial) {steps : List Step}
    {packets : List ControlPacket} (hrun : start.run? steps = some (packets, s))
    {segments bytes : UInt32} {rtt : Duration}
    (hbrief : ∀ step ∈ steps ++ [.acknowledge segments rtt bytes], step.isBrief = true) :
    ∃ next, s.step? (.acknowledge segments rtt bytes) = some (none, next) := by
  obtain ⟨_, next, hrun'⟩ := exists_run_of_brief hrtt hbrief
  obtain ⟨_, middle, _, hpast, hlater, _⟩ := run?_append_eq_some_iff.mp hrun'
  cases hrun.symm.trans hpast
  obtain ⟨packet, next, _, hstep, _, _⟩ := run?_cons_eq_some_iff.mp hlater
  cases effect_of_step? hstep
  exact ⟨_, hstep⟩

/-- In every run of a Prague session, an acknowledgement in normal operation is
answered if no round trip so far took 2^61 seconds, and every one that is answered
grows the window by a segment's share of it. -/
theorem normal_growth {settings : Settings} (hvalid : settings.validate = .ok ())
    (halgorithm : settings.algorithm = .prague) :
    ∃ start, create settings = .ok start ∧
      ∀ steps packets reached, start.run? steps = some (packets, reached) →
        reached.connection.phase = .normal → ∀ segments rtt bytes,
          ((∀ step ∈ steps ++ [.acknowledge segments rtt bytes], step.isBrief = true) →
            ∃ next, reached.step? (.acknowledge segments rtt bytes) = some (none, next)) ∧
          ∀ packet next, reached.step? (.acknowledge segments rtt bytes) = some (packet, next) →
            GrownByShare settings.segmentSize reached.connection.cwnd next.connection.cwnd := by
  obtain ⟨hpos, hinitial⟩ := Settings.segmentSize_le_initialCwnd hvalid
  refine ⟨_, create_eq_startPrague hvalid halgorithm, ?_⟩
  intro steps packets reached hrun hphase segments rtt bytes
  constructor
  · intro hbrief
    exact answered_of_brief rfl hrun hbrief
  · intro packet next hstep
    have hfloor : settings.segmentSize.toNat ≤ windowFloor settings.segmentSize := by
      have hbound := settings.segmentSize.toNat_lt
      unfold windowFloor
      omega
    have hreached := aboveFloor_of_run hfloor ⟨rfl, Nat.min_le_right _ _, hinitial⟩ hrun
    obtain ⟨p, hp, _⟩ := (measured_of_run (measured_start settings) hrun).queue
    rw [cwnd_of_acknowledge hp hphase hstep, hreached.segmentSize]
    exact grownByShare hpos hreached.cwnd

def wideSegments : Settings :=
  { Settings.default with segmentSize := 94906265, initialSegments := 1 }

theorem normal_growth_wideSegments :
    wideSegments.validate = .ok () ∧ wideSegments.algorithm = .prague ∧
      ∃ start reached next, create wideSegments = .ok start ∧
        start.run? [.acknowledge 1 .threeMillis 1448] = some ([], reached) ∧
        reached.connection.phase = .normal ∧
        reached.step? (.acknowledge 1 .zero 0) = some (none, next) ∧
        GrownByShare wideSegments.segmentSize reached.connection.cwnd next.connection.cwnd ∧
        reached.connection.cwnd = 2 * wideSegments.segmentSize ∧
        wideSegments.segmentSize.toNat * wideSegments.segmentSize.toNat < 2 ^ 53 ∧
        next.connection.cwnd.toNat = 237265662 := by
  have hvalid : wideSegments.validate = .ok () := by
    rw [Settings.validate_eq_ok_iff]
    decide +kernel
  obtain ⟨start, hcreate, h⟩ := normal_growth hvalid rfl
  cases Except.ok.inj (hcreate.symm.trans (create_eq_startPrague hvalid rfl))
  obtain ⟨hanswered, hgrown⟩ := h [.acknowledge 1 .threeMillis 1448] _ _ rfl rfl 1 .zero 0
  obtain ⟨next, hnext⟩ := hanswered (List.all_eq_true.mp (by decide +kernel))
  have hshare := hgrown _ next hnext
  have hsquare : wideSegments.segmentSize.toNat * wideSegments.segmentSize.toNat < 2 ^ 53 := by
    decide +kernel
  have hcwnd := hshare.sum
  rw [hshare.exact hsquare] at hcwnd
  refine ⟨hvalid, rfl, _, _, next, hcreate, rfl, rfl, hnext, hshare, ?_, hsquare, hcwnd.trans ?_⟩
  · decide +kernel
  · decide +kernel

end Session

end ScalableCongestion
