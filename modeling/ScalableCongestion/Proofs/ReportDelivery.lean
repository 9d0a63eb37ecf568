import ScalableCongestion.Proofs.Control.Window
import ScalableCongestion.Proofs.Session.Run
import ScalableCongestion.Proofs.Session.Start

/-! Where a reported count goes. The mailbox always holds the count of the last
option since the latest acknowledgement; the next acknowledgement hands exactly
that count to the controller and leaves the mailbox empty. Outside recovery it
goes into the estimate. In recovery it is lost, and nothing that happens later
depends on it. -/
namespace ScalableCongestion

namespace Step

def isAcknowledgement : Step → Bool
  | .acknowledge .. => true
  | _ => false

def ace? : Step → Option AceOption
  | .aceOption o => some o
  | .segmentOptions bytes => findAce? bytes
  | _ => none

end Step

namespace Session

variable {s next : Session} {step : Step} {packet : Option ControlPacket}
  {segments bytes : UInt32} {rtt : Duration}

/-- The count of the last option since the latest acknowledgement, or zero. -/
def pendingReport (past : List Step) : UInt32 :=
  match (past.reverse.takeWhile fun step => !step.isAcknowledgement).findSome? Step.ace? with
  | some o => o.ceBytes
  | none => 0

theorem pendingReport_concat (past : List Step) (step : Step) :
    pendingReport (past ++ [step]) =
      if step.isAcknowledgement then 0
      else match step.ace? with
        | some o => o.ceBytes
        | none => pendingReport past := by
  unfold pendingReport
  rw [List.reverse_concat, List.takeWhile_cons]
  cases step.isAcknowledgement with
  | true => rfl
  | false =>
      simp only [Bool.not_false, ↓reduceIte, List.findSome?_cons, Bool.false_eq_true]
      cases step.ace? <;> rfl

theorem pending_of_step (hstep : s.step? step = some (packet, next)) :
    next.mailbox.pending =
      if step.isAcknowledgement then 0
      else match step.ace? with
        | some o => o.ceBytes
        | none => s.mailbox.pending := by
  cases effect_of_step? hstep with
  | depositFound _ _ found => simp only [Step.isAcknowledgement, Step.ace?, found]; rfl
  | nothingFound _ found => simp only [Step.isAcknowledgement, Step.ace?, found]; rfl
  | _ => rfl

theorem pending_eq_pendingReport (hempty : s.mailbox = .empty) {past : List Step}
    {packets : List ControlPacket} (hrun : s.run? past = some (packets, next)) :
    next.mailbox.pending = pendingReport past := by
  refine run?_induction
    (motive := fun past _ reached => reached.mailbox.pending = pendingReport past) ?_ ?_ hrun
  · rw [hempty]
    rfl
  · intro past _ middle step packet next _ hpending hstep
    rw [pending_of_step hstep, pendingReport_concat, hpending]

theorem acknowledge_delivers
    (hstep : s.step? (.acknowledge segments rtt bytes) = some (packet, next)) :
    next.mailbox = .empty ∧
      s.controller.acknowledge? (s.connection.timed next.connection.srtt)
        ⟨segments, rtt, s.mailbox.pending, bytes⟩ = some (next.controller, next.connection) := by
  cases effect_of_step? hstep with
  | acknowledge _ _ _ averages srtt controller connection _ controlled =>
      obtain ⟨cwnd, hconnection, _⟩ := Controller.acknowledge?_grows controlled
      have hsrtt : connection.srtt = srtt := by
        rw [hconnection]
        rfl
      refine ⟨rfl, ?_⟩
      rw [hsrtt]
      exact controlled

theorem estimate_of_acknowledge {p : Prague} (hp : s.controller = .prague p)
    (hphase : s.connection.phase.isRecovering = false)
    (hstep : s.step? (.acknowledge segments rtt bytes) = some (packet, next)) :
    ∃ p', next.controller = .prague p' ∧
      p'.estimator = (p.estimator.update s.mailbox.pending bytes).2 ∧
      p'.lastEstimate = some ⟨bytes, s.mailbox.pending, p'.alpha⟩ := by
  obtain ⟨_, hcontrolled⟩ := acknowledge_delivers hstep
  rw [hp] at hcontrolled
  obtain ⟨p', hp', hacknowledge⟩ := Controller.acknowledge?_prague hcontrolled
  rcases Prague.acknowledge?_eq_some hacknowledge with ⟨hrecovering, _⟩ | ⟨_, _, _, _, rfl, _⟩
  · rw [Connection.timed_phase, hphase] at hrecovering
    contradiction
  · exact ⟨_, hp', rfl, rfl⟩

theorem frozen_of_acknowledge {p : Prague} (hp : s.controller = .prague p)
    (hphase : s.connection.phase.isRecovering = true)
    (hstep : s.step? (.acknowledge segments rtt bytes) = some (packet, next)) :
    next.controller = .prague p ∧ next.connection.cwnd = s.connection.cwnd := by
  obtain ⟨_, hcontrolled⟩ := acknowledge_delivers hstep
  rw [hp, Controller.acknowledge?_prague_recovering (by exact hphase)] at hcontrolled
  obtain ⟨hcontroller, hconnection⟩ := Prod.mk.inj (Option.some.inj hcontrolled)
  exact ⟨hcontroller.symm, hconnection ▸ rfl⟩

/-- In recovery an acknowledgement does the same whatever the mailbox holds, and
so does every run that it begins. -/
theorem run?_acknowledge_recovering {p : Prague} (hp : s.controller = .prague p)
    (hphase : s.connection.phase.isRecovering = true) (mailbox : Mailbox) (later : List Step) :
    { s with mailbox }.run? (.acknowledge segments rtt bytes :: later) =
      s.run? (.acknowledge segments rtt bytes :: later) := by
  have hsame : { s with mailbox }.acknowledge? segments rtt bytes =
      s.acknowledge? segments rtt bytes := by
    rw [acknowledge?_eq, acknowledge?_eq, hp]
    have hfrozen (srtt : Duration) (ceBytes : UInt32) :
        (Controller.prague p).acknowledge? (s.connection.timed srtt)
          ⟨segments, rtt, ceBytes, bytes⟩ = some (.prague p, s.connection.timed srtt) :=
      Controller.acknowledge?_prague_recovering hphase
    simp only [hfrozen]
    rfl
  simp only [run?, step?, hsame]

/-- Every reported count reaches the controller at most once, with the first
acknowledgement after it and unless a later count replaced it. -/
theorem report_reaches_next_acknowledgement {settings : Settings}
    (hvalid : settings.validate = .ok ()) :
    ∃ start, create settings = .ok start ∧
      ∀ past packets s, start.run? past = some (packets, s) →
        s.mailbox.pending = pendingReport past ∧
        ∀ segments rtt bytes packet next,
          s.step? (.acknowledge segments rtt bytes) = some (packet, next) →
            next.mailbox.pending = 0 ∧
            s.controller.acknowledge? (s.connection.timed next.connection.srtt)
              ⟨segments, rtt, pendingReport past, bytes⟩ =
                some (next.controller, next.connection) ∧
            ∀ p, s.controller = .prague p →
              (s.connection.phase ≠ .recovery ∧ s.connection.phase ≠ .loss →
                ∃ p', next.controller = .prague p' ∧
                  p'.estimator = (p.estimator.update (pendingReport past) bytes).2 ∧
                  p'.lastEstimate = some ⟨bytes, pendingReport past, p'.alpha⟩) ∧
              (s.connection.phase = .recovery ∨ s.connection.phase = .loss →
                next.controller = .prague p ∧ next.connection.cwnd = s.connection.cwnd ∧
                ∀ mailbox later,
                  { s with mailbox }.run? (.acknowledge segments rtt bytes :: later) =
                    s.run? (.acknowledge segments rtt bytes :: later)) := by
  obtain ⟨controller, _, _, _, hcreate⟩ := create_fresh hvalid
  refine ⟨_, hcreate, ?_⟩
  intro past packets s hrun
  have hpending := pending_eq_pendingReport rfl hrun
  refine ⟨hpending, ?_⟩
  intro segments rtt bytes packet next hstep
  obtain ⟨hempty, hcontrolled⟩ := acknowledge_delivers hstep
  rw [← hpending]
  refine ⟨congrArg Mailbox.pending hempty, hcontrolled, ?_⟩
  intro p hp
  constructor
  · intro hphase
    exact estimate_of_acknowledge hp ((Phase.isRecovering_eq_false_iff _).mpr hphase) hstep
  · intro hrecovering
    have hphase := (Phase.isRecovering_iff _).mpr hrecovering
    obtain ⟨hcontroller, hcwnd⟩ := frozen_of_acknowledge hp hphase hstep
    exact ⟨hcontroller, hcwnd, run?_acknowledge_recovering hp hphase⟩

def lastOption : List Step :=
  [.aceOption ⟨500⟩, .segmentOptions [1, 15, 6, 0, 0, 2, 212], .segmentOptions [15, 3, 9]]

theorem report_reaches_next_acknowledgement_lastOption :
    Settings.default.validate = .ok () ∧
      ∃ s next p, create .default = .ok (startPrague .default) ∧
        (startPrague .default).run? lastOption = some ([], s) ∧ s.mailbox.pending = 724 ∧
        s.step? (.acknowledge 1 .zero 1448) = some (none, next) ∧ next.mailbox.pending = 0 ∧
        next.controller = .prague p ∧ p.lastEstimate = some ⟨1448, 724, p.alpha⟩ ∧
        p.alpha.toBits = (0.96875 : Float).toBits := by
  have hvalid : Settings.default.validate = .ok () := by
    rw [Settings.validate_eq_ok_iff]
    decide +kernel
  obtain ⟨start, hcreate, h⟩ := report_reaches_next_acknowledgement hvalid
  cases Except.ok.inj (hcreate.symm.trans (create_eq_startPrague hvalid rfl))
  have hfound : findAce? [1, 15, 6, 0, 0, 2, 212] = some ⟨724⟩ := by decide +kernel
  have hnone : findAce? [15, 3, 9] = none := by decide +kernel
  have hrun : (startPrague .default).run? lastOption =
      some ([], { startPrague .default with mailbox := ⟨724⟩ }) := by
    simp only [lastOption, run?, step?, receiveOptions, hfound, hnone]
    rfl
  have hreport : pendingReport lastOption = 724 := by decide +kernel
  obtain ⟨_, hnext⟩ := h lastOption _ _ hrun
  obtain ⟨hempty, _, hprague⟩ := hnext 1 .zero 1448 none _ rfl
  obtain ⟨p, hp, _, hlast⟩ := (hprague _ rfl).1 ⟨by decide, by decide⟩
  rw [hreport] at hlast
  cases Controller.prague.inj hp
  exact ⟨hvalid, _, _, _, hcreate, hrun, rfl, rfl, hempty, rfl, hlast, by decide +kernel⟩

end Session

end ScalableCongestion
