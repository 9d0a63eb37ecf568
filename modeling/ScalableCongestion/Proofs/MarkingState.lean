import ScalableCongestion.Proofs.EchoHistory
import ScalableCongestion.Proofs.StepFrame

/-! The marking of arriving segments is kept twice: in the ECN state of the
connection and in the receiver's half of the controller. Observations write
both and nothing else writes either, so the two never drift apart, and the
snapshot that goes with them is that of the latest observation. -/
namespace ScalableCongestion

def EcnState.ofMarking (marking : Bool) : EcnState := if marking then .ceReceived else .idle

/-- The connection shows the marking that the receiver's half has noted; without
a snapshot none is noted. -/
def Controller.ShownBy (k : Controller) (c : Connection) : Prop :=
  ∃ marking snapshot, k.marking? = some (marking, snapshot) ∧
    c.ecnState = .ofMarking marking ∧ (snapshot = none → marking = false)

namespace Prague

variable {p : Prague} {c : Connection}

theorem ecnState_observe {shown : Bool} (h : c.ecnState = .ofMarking shown) (marked : Bool) :
    (p.observe c marked).2.2.ecnState = .ofMarking marked := by
  cases marked with
  | true => rfl
  | false =>
      simp only [observe, h]
      cases shown <;> rfl

theorem shownBy_observe {shown : Bool} (h : c.ecnState = .ofMarking shown) (marked : Bool) :
    (Controller.prague (p.observe c marked).2.1).ShownBy (p.observe c marked).2.2 :=
  ⟨marked, some c.rcvNxt, rfl, ecnState_observe h marked, nofun⟩

/-- A mark that a classic queue explains is written in neither place. -/
theorem shownBy_arrival (h : (Controller.prague p).ShownBy c) {event : Signal}
    (harrives : (Step.signal event).showsMarking = true) :
    (Controller.prague (p.signal c event).2.1).ShownBy (p.signal c event).2.2 := by
  obtain ⟨_, _, _, hshown, _⟩ := id h
  cases event with
  | unmarked => exact shownBy_observe hshown false
  | marked =>
      simp only [signal]
      split
      · exact h
      · exact shownBy_observe hshown true
  | _ => cases harrives

end Prague

namespace Session

variable {s next : Session} {step : Step} {packet : Option ControlPacket}

theorem shownBy_of_step (h : s.controller.ShownBy s.connection)
    (hstep : s.step? step = some (packet, next)) : next.controller.ShownBy next.connection := by
  have hframe := frame_of_step hstep
  cases harrives : step.showsMarking with
  | false =>
      obtain ⟨marking, snapshot, hmarking, hshown, hfirst⟩ := h
      exact ⟨marking, snapshot, (hframe.marking harrives).trans hmarking,
        (hframe.ecnState harrives).trans hshown, hfirst⟩
  | true =>
      cases effect_of_step? hstep with
      | signal event =>
          cases hcontroller : s.controller with
          | reno r =>
              rw [hcontroller] at h
              obtain ⟨_, _, hmarking, _⟩ := h
              cases hmarking
          | prague p =>
              rw [hcontroller] at h
              rw [signal_prague hcontroller]
              exact Prague.shownBy_arrival h harrives
      | _ => cases harrives

theorem shownBy_of_run {last : Session} {steps : List Step} {packets : List ControlPacket}
    (h : s.controller.ShownBy s.connection) (hrun : s.run? steps = some (packets, last)) :
    last.controller.ShownBy last.connection := by
  have hkeeps (s : Session) (step : Step) (packet : Option ControlPacket) (next : Session)
      (hs : s.controller.ShownBy s.connection) (hstep : s.step? step = some (packet, next)) :
      next.controller.ShownBy next.connection := shownBy_of_step hs hstep
  exact run?_keeps hkeeps hrun h

theorem snapshot_of_remembers {e : Echo} {last : Option Observation} (h : Remembers e last) :
    e.snapshot = last.map Observation.rcvNxt := by
  cases last with
  | none => exact h
  | some o => exact h.1

/-- In every run of a Prague session the connection shows the marking that the
receiver's half has noted, as one of two ECN states, and the snapshot is the
next expected sequence number at the latest observation, whatever has happened
since. -/
theorem marking_never_drifts {settings : Settings} (hvalid : settings.validate = .ok ())
    (halgorithm : settings.algorithm = .prague) :
    ∃ start, create settings = .ok start ∧
      ∀ steps packets reached, start.run? steps = some (packets, reached) →
        ∃ p, reached.controller = .prague p ∧
          reached.connection.ecnState = .ofMarking p.echo.marking ∧
          (p.echo.snapshot = none → p.echo.marking = false) ∧
          p.echo.snapshot = (start.observations steps).getLast?.map Observation.rcvNxt ∧
          reached.connection.rcvNxt = latestRcvNxt steps := by
  obtain ⟨start, hcreate, hstart⟩ := recalls_of_create hvalid halgorithm
  refine ⟨start, hcreate, ?_⟩
  intro steps packets reached hrun
  have hshown : start.controller.ShownBy start.connection := by
    cases Except.ok.inj (hcreate.symm.trans (create_prague hvalid halgorithm))
    exact ⟨false, none, rfl, rfl, fun _ => rfl⟩
  obtain ⟨marking, snapshot, hmarking, hstate, hfirst⟩ := shownBy_of_run hshown hrun
  have hrecalls := recalls_of_run hstart hrun
  obtain ⟨p, hp, _, hremembers⟩ := hrecalls.echo
  rw [hp] at hmarking
  cases hmarking
  exact ⟨p, hp, hstate, hfirst, snapshot_of_remembers hremembers, hrecalls.rcvNxt⟩

def markedTwice : List Step :=
  [.setRcvNxt ⟨1000⟩, .signal .unmarked, .setRcvNxt ⟨2000⟩, .signal .marked,
    .acknowledge 1 .threeMillis 1448, .acknowledge 1 ⟨1000000000, by decide⟩ 1448,
    .setRcvNxt ⟨3000⟩, .signal .marked, .setPhase .cwr 9000, .signal .loss, .setPhase .recovery 0]

theorem marking_never_drifts_markedTwice :
    Settings.default.validate = .ok () ∧ Settings.default.algorithm = .prague ∧
      ∃ start reached p, create .default = .ok start ∧
        start.run? markedTwice = some ([], reached) ∧ reached.controller = .prague p ∧
        p.inFallback = true ∧ p.echo.marking = true ∧
        reached.connection.ecnState = .ofMarking p.echo.marking ∧
        p.echo.snapshot = some ⟨2000⟩ ∧ reached.connection.rcvNxt = ⟨3000⟩ := by
  obtain ⟨start, hcreate, h⟩ := marking_never_drifts Settings.validate_default rfl
  cases Except.ok.inj (hcreate.symm.trans (create_prague Settings.validate_default rfl))
  obtain ⟨p, hp, hstate, _, hsnapshot, hrcvNxt⟩ := h markedTwice _ _ rfl
  cases Controller.prague.inj hp
  exact ⟨Settings.validate_default, rfl, _, _, _, hcreate, rfl, rfl, by decide +kernel, rfl, hstate,
    hsnapshot.trans (by decide +kernel), hrcvNxt⟩

end Session

end ScalableCongestion
