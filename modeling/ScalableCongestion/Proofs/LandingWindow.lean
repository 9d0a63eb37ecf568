import ScalableCongestion.Proofs.Control.LossTarget
import ScalableCongestion.Proofs.EstimateRange
import ScalableCongestion.Proofs.StagedReduction

/-! Where a staged reduction may land the window. The threshold is staged from
the data in flight and not from the window, so a reduction that begins with more
than twice the window in flight ends above it. A cut on the way prevents that, as
no cut asks for more than the window. -/
namespace ScalableCongestion

theorem Controller.cutTarget_le {k : Controller}
    (hbounded : ∀ p, k = .prague p → p.Bounded) (c : Connection) (event : Signal) :
    k.cutTarget c event ≤ c.cwnd := by
  have hhalf : c.cwnd / 2 ≤ c.cwnd := by
    rw [UInt32.le_iff_toNat_le, UInt32.toNat_div]
    exact Nat.div_le_self _ _
  cases k with
  | reno r => exact hhalf
  | prague p =>
      cases event with
      | loss => exact Prague.lossWindow_le (hbounded p rfl).alpha_inUnit c
      | _ => exact hhalf

namespace Session

variable {s middle next last : Session} {step : Step} {packet : Option ControlPacket}
  {packets : List ControlPacket}

theorem estimatesFractions_of_run {settings : Settings} {start : Session} {steps : List Step}
    (hvalid : settings.validate = .ok ()) (hcreate : create settings = .ok start)
    (hrun : start.run? steps = some (packets, last)) : last.EstimatesFractions :=
  run?_keeps (fun _ _ _ _ h hstep => h.of_step hstep) hrun
    (estimatesFractions_of_create hvalid hcreate)

theorem cwnd_le_of_cut (hfractions : s.EstimatesFractions) (hcut : s.cuts step = true)
    (hstep : s.step? step = some (packet, next)) :
    next.connection.cwnd.toNat ≤
      max s.connection.cwnd.toNat (windowFloor s.connection.segmentSize) := by
  obtain ⟨event, _, hreduced⟩ := cut_of_step hcut hstep
  have htarget := Controller.cutTarget_le hfractions s.connection event
  rw [UInt32.le_iff_toNat_le] at htarget
  rw [hreduced, Connection.reduceTo, toNat_max, Connection.toNat_minWindow]
  omega

/-- A reduction under way keeps the window under the one it began with and the
floor. -/
theorem cwnd_le_of_reducing {bytesInFlight : UInt32} {steps : List Step}
    (hphase : s.connection.phase ≠ .cwr) (hfractions : s.EstimatesFractions)
    (hrun : (s.setPhase .cwr bytesInFlight).run? steps = some (packets, last))
    (hstays : (s.setPhase .cwr bytesInFlight).StaysIn .cwr steps) :
    last.connection.cwnd.toNat ≤
      max s.connection.cwnd.toNat (windowFloor s.connection.segmentSize) := by
  have hentry : s.step? (.setPhase .cwr bytesInFlight) =
      some (none, s.setPhase .cwr bytesInFlight) := rfl
  have hentered := hfractions.of_step hentry
  have hstart := ((Reducing.enter hphase bytesInFlight).uncut rfl).1
  refine (hstays.induction (motive := fun past reached => reached.EstimatesFractions ∧
    reached.connection.segmentSize = s.connection.segmentSize ∧
    reached.connection.cwnd.toNat ≤
      max s.connection.cwnd.toNat (windowFloor s.connection.segmentSize)) ?_ ?_ hrun).2.2
  · refine ⟨hentered, (Reducing.enter hphase bytesInFlight).segmentSize, ?_⟩
    rw [hstart]
    exact Nat.le_max_left _ _
  · rintro past packets middle step packet next _ ⟨hmiddle, hsize, hwindow⟩ hphase hnext hstep
    have hsize' := congrArg Fixture.segmentSize (frame_of_step hstep).fixture
    refine ⟨hmiddle.of_step hstep, hsize'.trans hsize, ?_⟩
    cases hcut : middle.cuts step with
    | false =>
        rw [(uncut_of_step hphase hnext hcut hstep).1]
        exact hwindow
    | true =>
        have hless := cwnd_le_of_cut hmiddle hcut hstep
        rw [hsize] at hless
        omega

/-- Where a staged reduction lands, for every session that a run can reach. The
window ends no larger than it began, the floor apart, exactly if the data in
flight at the beginning were no more than twice that or the controller has cut on
the way. -/
theorem landing_le_iff {settings : Settings} (hvalid : settings.validate = .ok ()) :
    ∃ start, create settings = .ok start ∧
      ∀ before packets s, start.run? before = some (packets, s) → s.connection.phase ≠ .cwr →
        ∀ bytesInFlight steps packets last,
          (s.setPhase .cwr bytesInFlight).run? steps = some (packets, last) →
          (s.setPhase .cwr bytesInFlight).StaysIn .cwr steps →
          ∀ bytesInFlight', ∃ next,
            last.step? (.setPhase .normal bytesInFlight') = some (none, next) ∧
            next.connection.cwnd ≤
              max (max s.connection.cwnd s.connection.minWindow) (bytesInFlight / 2) ∧
            (next.connection.cwnd ≤ max s.connection.cwnd s.connection.minWindow ↔
              bytesInFlight / 2 ≤ max s.connection.cwnd s.connection.minWindow ∨
                (s.setPhase .cwr bytesInFlight).cutIn steps = true) := by
  obtain ⟨_, _, _, _, hcreate⟩ := create_fresh hvalid
  refine ⟨_, hcreate, ?_⟩
  intro before packets s hbefore hphase bytesInFlight steps packets' last hrun hstays bytesInFlight'
  have hfractions := estimatesFractions_of_run hvalid hcreate hbefore
  have hreducing := reducing_of_run hphase hrun hstays
  have hend := hstays _ _ (passes_of_run hrun)
  obtain ⟨next, hstep, hcwnd, _⟩ := hreducing.leave hend bytesInFlight'
  refine ⟨next, hstep, ?_⟩
  simp only [UInt32.le_iff_toNat_le, toNat_max, Connection.toNat_minWindow, hcwnd]
  cases hcut : (s.setPhase .cwr bytesInFlight).cutIn steps with
  | false =>
      rw [(hreducing.uncut hcut).2, toNat_max, Connection.toNat_minWindow]
      simp only [Bool.false_eq_true, or_false]
      omega
  | true =>
      have hwindow := cwnd_le_of_reducing hphase hfractions hrun hstays
      rw [hreducing.landed hcut] at hwindow
      simp only [or_true, iff_true]
      omega

def twoLosses : List Step := [.signal .loss, .signal .loss]

def thirdLoss : List Step := [.acknowledge 1 .threeMillis 1448, .signal .loss]

/-- With 14480 bytes in flight after two losses the window doubles. A third loss
during the reduction keeps it from doing so. -/
theorem landing_le_iff_afterLosses :
    Settings.default.validate = .ok () ∧ ∃ start s lost next next',
      create .default = .ok start ∧
      start.run? twoLosses = some ([], s) ∧ s.connection.phase ≠ .cwr ∧
      s.connection.cwnd = 3620 ∧
      (s.setPhase .cwr 14480).step? (.setPhase .normal 0) = some (none, next) ∧
      next.connection.cwnd ≤ 7240 ∧ ¬next.connection.cwnd ≤ 3620 ∧
      (s.setPhase .cwr 14480).run? thirdLoss = some ([], lost) ∧
      (s.setPhase .cwr 14480).StaysIn .cwr thirdLoss ∧
      lost.step? (.setPhase .normal 0) = some (none, next') ∧ next'.connection.cwnd ≤ 3620 := by
  obtain ⟨start, hcreate, h⟩ := landing_le_iff Settings.validate_default
  cases Except.ok.inj (hcreate.symm.trans (create_eq_startPrague Settings.validate_default rfl))
  have hstays : ((((startPrague .default).signal .loss).signal .loss).setPhase .cwr 14480).StaysIn
      .cwr thirdLoss := .cons rfl rfl <| .cons rfl rfl <| .nil rfl
  have hreached := h twoLosses _ _ rfl nofun 14480
  obtain ⟨next, hnext, hbound, hiff⟩ := hreached [] _ _ rfl (.nil rfl) 0
  obtain ⟨next', hnext', _, hiff'⟩ := hreached thirdLoss _ _ rfl hstays 0
  have hgrown : ¬next.connection.cwnd ≤ 3620 := fun hle => absurd (hiff.mp hle) (by decide +kernel)
  have hkept : next'.connection.cwnd ≤ 3620 := hiff'.mpr (.inr (by decide +kernel))
  exact ⟨Settings.validate_default, _, _, _, next, next', hcreate, rfl, nofun, rfl, hnext, hbound,
    hgrown, rfl, hstays, hnext', hkept⟩

/-- After two losses much more is in flight than the window allows. -/
theorem landing_above_entry :
    ¬∀ (settings : Settings) (start s last next : Session) (before steps : List Step)
      (packets packets' : List ControlPacket) (bytesInFlight bytesInFlight' : UInt32),
      settings.validate = .ok () → create settings = .ok start →
      start.run? before = some (packets, s) → s.connection.phase ≠ .cwr →
      (s.setPhase .cwr bytesInFlight).run? steps = some (packets', last) →
      (s.setPhase .cwr bytesInFlight).StaysIn .cwr steps →
      last.step? (.setPhase .normal bytesInFlight') = some (none, next) →
      next.connection.cwnd ≤ max s.connection.cwnd s.connection.minWindow := by
  intro h
  have hvalid := Settings.validate_default
  have hlanded := h .default _ _ _ _ twoLosses [] _ _ 14480 0 hvalid
    (create_eq_startPrague hvalid rfl) rfl nofun rfl (.nil rfl) rfl
  exact absurd hlanded (by decide +kernel)

end Session

end ScalableCongestion
