import ScalableCongestion.Proofs.ReportDelivery
import ScalableCongestion.Proofs.WindowFloor

/-! What a step may change. Every field of a session has its own short list of
steps that write it; any other step leaves it as it was. Some fields are on no
list and stay as the start has set them, in every run. -/
namespace ScalableCongestion

namespace Step

def showsMarking : Step → Bool
  | .signal .marked => true
  | .signal .unmarked => true
  | _ => false

def showsReservation : Step → Bool
  | .signal .delayedAck => true
  | .signal .immediateAck => true
  | _ => false

def measuresRtt : Step → Bool
  | .acknowledge _ rtt _ => !rtt.isZero
  | _ => false

end Step

namespace Controller

/-- The phases in which an acknowledgement may grow the window. -/
def growsIn : Controller → Phase → Bool
  | reno _, phase => phase = .normal ∨ phase = .disorder
  | prague _, phase => phase = .normal

def estimation? (k : Controller) : Option (Float × Option Estimate × ClassicQueue) :=
  k.prague?.map fun p => (p.alpha, p.lastEstimate, p.queue)

def marking? (k : Controller) : Option (Bool × Option SequenceNumber) :=
  k.prague?.map fun p => (p.echo.marking, p.echo.snapshot)

def reserved? (k : Controller) : Option Bool := k.prague?.map fun p => p.echo.reserved

end Controller

/-- What a session has from its start and keeps. The last three are Prague's. -/
structure Fixture where
  algorithm : Algorithm
  segmentSize : UInt32
  ecnEnabled : Bool
  ecnMode : EcnMode
  codepoint : Codepoint
  gain : Option Float
  useEct0 : Option Bool
  initialized : Option Bool

def Fixture.of (k : Controller) (c : Connection) : Fixture where
  algorithm := k.algorithm
  segmentSize := c.segmentSize
  ecnEnabled := c.ecnEnabled
  ecnMode := c.ecnMode
  codepoint := c.codepoint
  gain := k.prague?.map Prague.gain
  useEct0 := k.prague?.map Prague.useEct0
  initialized := k.prague?.map Prague.initialized

namespace Controller

/-- An acknowledgement changes the window in some phases only, and the estimate
outside recovery only. -/
theorem acknowledge?_frame {k next : Controller} {c after : Connection} {a : Acknowledgement}
    (h : k.acknowledge? c a = some (next, after)) :
    (k.growsIn c.phase = false → after.cwnd = c.cwnd) ∧
      (c.phase = .recovery ∨ c.phase = .loss → next.estimation? = k.estimation?) ∧
      next.marking? = k.marking? ∧ next.reserved? = k.reserved? ∧
      Fixture.of next after = Fixture.of k c := by
  obtain ⟨cwnd, hafter, _⟩ := acknowledge?_grows h
  cases k with
  | reno r =>
      obtain ⟨rfl, hcwnd⟩ := acknowledge?_reno h
      refine ⟨?_, fun _ => rfl, rfl, rfl, ?_⟩
      · intro hphase
        rw [hcwnd, Reno.acknowledge_frozen ((Reno.growsIn_eq c.phase).trans hphase)]
      · rw [hafter]
        rfl
  | prague p =>
      obtain ⟨p', rfl, hacknowledge⟩ := acknowledge?_prague h
      rcases Prague.acknowledge?_eq_some hacknowledge with
        ⟨_, rfl, rfl⟩ | ⟨hphase, _, queue, _, rfl, hgrown⟩
      · exact ⟨fun _ => rfl, fun _ => rfl, rfl, rfl, rfl⟩
      · refine ⟨?_, ?_, rfl, rfl, ?_⟩
        · intro hstill
          have hnormal : c.phase ≠ .normal := by simpa [growsIn] using hstill
          rw [hgrown, Prague.grown, if_neg hnormal]
        · intro hrecovering
          exact absurd (hphase.symm.trans ((Phase.isRecovering_iff _).mpr hrecovering)) nofun
        · rw [hafter]
          rfl

theorem signal_prague_eq (p : Prague) (c : Connection) (event : Signal) :
    ((prague p).signal c event).2.1 =
      .prague { p with echo := (p.signal c event).2.1.echo } :=
  congrArg prague (p.signal_frame c event)

/-- A signal reaches nothing in the controller but Reno's counter and the
receiver's half of Prague, of which one part notes markings and the other
reservations. -/
theorem signal_frame (k : Controller) (c : Connection) (event : Signal) :
    (k.signal c event).2.1.estimation? = k.estimation? ∧
      ((Step.signal event).showsMarking = false →
        (k.signal c event).2.1.marking? = k.marking?) ∧
      ((Step.signal event).showsReservation = false →
        (k.signal c event).2.1.reserved? = k.reserved?) ∧
      Fixture.of (k.signal c event).2.1 (k.signal c event).2.2 = Fixture.of k c := by
  obtain ⟨_, _, _, hconnection⟩ := k.signal_connection c event
  cases k with
  | reno r =>
      rw [hconnection]
      exact ⟨rfl, fun _ => rfl, fun _ => rfl, rfl⟩
  | prague p =>
      refine ⟨?_, ?_, ?_, ?_⟩
      · rw [signal_prague_eq]
        rfl
      · intro hquiet
        cases event with
        | marked => cases hquiet
        | unmarked => cases hquiet
        | _ => rfl
      · intro hquiet
        cases event with
        | delayedAck => cases hquiet
        | immediateAck => cases hquiet
        | marked =>
            simp only [signal, Prague.signal]
            split <;> rfl
        | _ => rfl
      · rw [hconnection, signal_prague_eq]
        rfl

theorem ecnState_signal (k : Controller) (c : Connection) {event : Signal}
    (hquiet : (Step.signal event).showsMarking = false) :
    (k.signal c event).2.2.ecnState = c.ecnState := by
  cases k with
  | reno r => cases event <;> rfl
  | prague p =>
      cases event with
      | marked => cases hquiet
      | unmarked => cases hquiet
      | loss =>
          obtain ⟨_, hlose⟩ := p.lose_eq c
          simp only [signal, Prague.signal, hlose]
      | _ => rfl

theorem srtt_signal (k : Controller) (c : Connection) (event : Signal) :
    (k.signal c event).2.2.srtt = c.srtt := by
  obtain ⟨_, _, _, hconnection⟩ := k.signal_connection c event
  rw [hconnection]

end Controller

namespace Session

def fixture (s : Session) : Fixture := .of s.controller s.connection

def growsWindow (s : Session) (step : Step) : Bool :=
  step.isAcknowledgement && s.controller.growsIn s.connection.phase

/-- A cut lowers the threshold, and a reduction that starts stages it. -/
def movesThreshold (s : Session) : Step → Bool
  | .signal event => s.controller.cutsOn event
  | .setPhase phase _ => phase == .cwr && s.connection.phase != .cwr
  | _ => false

def estimates (s : Session) (step : Step) : Bool :=
  step.isAcknowledgement && !decide (s.connection.phase = .recovery ∨ s.connection.phase = .loss)

/-- What a step leaves as it was, field by field. -/
structure Frame (s : Session) (step : Step) (next : Session) : Prop where
  cwnd : s.growsWindow step = false → s.reduces step = false →
    next.connection.cwnd = s.connection.cwnd
  cwnd_grows : step.isAcknowledgement = true →
    s.connection.cwnd.toNat ≤ next.connection.cwnd.toNat
  ssthresh : s.movesThreshold step = false → next.connection.ssthresh = s.connection.ssthresh
  estimation : s.estimates step = false → next.controller.estimation? = s.controller.estimation?
  ecnState : step.showsMarking = false → next.connection.ecnState = s.connection.ecnState
  marking : step.showsMarking = false → next.controller.marking? = s.controller.marking?
  reserved : step.showsReservation = false → next.controller.reserved? = s.controller.reserved?
  srtt : step.measuresRtt = false → next.connection.srtt = s.connection.srtt
  fixture : next.fixture = s.fixture

variable {s next : Session} {step : Step}

theorem Frame.of_same (hcontroller : next.controller = s.controller)
    (hconnection : ∃ rcvNxt sndNxt, next.connection = { s.connection with rcvNxt, sndNxt }) :
    Frame s step next := by
  obtain ⟨rcvNxt, sndNxt, hconnection⟩ := hconnection
  have hfixture : next.fixture = s.fixture := by
    rw [Session.fixture, hcontroller, hconnection]
    rfl
  constructor <;> intros <;> simp only [hcontroller, hconnection, hfixture, Nat.le_refl]

theorem Frame.acknowledge {segments bytes : UInt32} {rtt srtt : Duration}
    {averages : SmoothedRtt} {controller : Controller} {connection : Connection}
    (measured : s.measure? rtt =
      some { s with rtt := averages, connection := s.connection.timed srtt })
    (controlled : s.controller.acknowledge? (s.connection.timed srtt)
      ⟨segments, rtt, s.mailbox.pending, bytes⟩ = some (controller, connection)) :
    Frame s (.acknowledge segments rtt bytes)
      ⟨connection, controller, .empty, averages, s.outbox⟩ := by
  obtain ⟨cwnd, hafter, hup⟩ := Controller.acknowledge?_grows controlled
  obtain ⟨hcwnd, hestimation, hmarking, hreserved, hfixture⟩ :=
    Controller.acknowledge?_frame controlled
  refine ⟨?_, ?_, ?_, ?_, ?_, fun _ => hmarking, fun _ => hreserved, ?_, hfixture⟩
  · intro hstill _
    exact hcwnd hstill
  · intro _
    rw [hafter]
    exact hup
  · intro _
    rw [hafter]
    rfl
  · intro hstill
    rw [estimates, Step.isAcknowledgement, Bool.true_and, Bool.not_eq_false',
      decide_eq_true_eq] at hstill
    exact hestimation hstill
  · intro _
    rw [hafter]
    rfl
  · intro hzero
    have hzero' : rtt.isZero = true := by simpa [Step.measuresRtt] using hzero
    rw [measure?, if_pos hzero'] at measured
    have hsame := congrArg (·.connection.srtt) (Option.some.inj measured)
    rw [hafter]
    exact hsame.symm

theorem Frame.setPhase (s : Session) (phase : Phase) (bytesInFlight : UInt32) :
    Frame s (.setPhase phase bytesInFlight)
      { s with connection := s.connection.enter phase bytesInFlight } := by
  refine ⟨?_, nofun, ?_, fun _ => rfl, ?_, fun _ => rfl, fun _ => rfl, ?_, ?_⟩
  · intro _ hstill
    have hstays : ¬(s.connection.phase = .cwr ∧ phase = .normal) := by
      simpa [reduces] using hstill
    exact (s.connection.cwnd_enter phase bytesInFlight).trans (if_neg hstays)
  · intro hstill
    have hstays : ¬(phase = .cwr ∧ s.connection.phase ≠ .cwr) := by
      simpa [movesThreshold] using hstill
    exact (s.connection.ssthresh_enter phase bytesInFlight).trans (if_neg hstays)
  · intro _
    unfold Connection.enter
    split <;> rfl
  · intro _
    exact s.connection.srtt_enter phase bytesInFlight
  · unfold Session.fixture Connection.enter
    split <;> rfl

theorem Frame.signal (s : Session) (event : Signal) : Frame s (.signal event) (s.signal event) := by
  obtain ⟨hestimation, hmarking, hreserved, hfixture⟩ :=
    s.controller.signal_frame s.connection event
  refine ⟨?_, nofun, ?_, fun _ => hestimation, ?_, hmarking, hreserved, ?_, hfixture⟩
  · intro _ hstill
    obtain ⟨_, hkept⟩ := Controller.signal_uncut hstill s.connection
    exact congrArg (·.cwnd) hkept
  · intro hstill
    obtain ⟨_, hkept⟩ := Controller.signal_uncut hstill s.connection
    exact congrArg (·.ssthresh) hkept
  · exact s.controller.ecnState_signal s.connection
  · intro _
    exact s.controller.srtt_signal s.connection event

theorem frame_of_step {packet : Option ControlPacket}
    (hstep : s.step? step = some (packet, next)) : Frame s step next := by
  cases effect_of_step? hstep with
  | deposit _ => exact .of_same rfl ⟨_, _, rfl⟩
  | depositFound _ _ _ => exact .of_same rfl ⟨_, _, rfl⟩
  | nothingFound _ _ => exact .of_same rfl ⟨_, _, rfl⟩
  | acknowledge _ _ _ _ _ _ _ measured controlled => exact .acknowledge measured controlled
  | setPhase phase bytesInFlight => exact .setPhase s phase bytesInFlight
  | signal event => exact .signal s event
  | pollNothing _ => exact .of_same rfl ⟨_, _, rfl⟩
  | poll _ _ _ => exact .of_same rfl ⟨_, _, rfl⟩
  | setRcvNxt _ => exact .of_same rfl ⟨_, _, rfl⟩
  | setSndNxt _ => exact .of_same rfl ⟨_, _, rfl⟩

theorem setPhase_same (s : Session) (bytesInFlight : UInt32) :
    s.setPhase s.connection.phase bytesInFlight = s := by
  rw [setPhase_eq, Connection.enter, if_pos rfl]

theorem fixture_of_run {last : Session} {steps : List Step} {packets : List ControlPacket}
    (hrun : s.run? steps = some (packets, last)) : last.fixture = s.fixture := by
  have hkeeps : ∀ (middle : Session) step packet next, middle.fixture = s.fixture →
      middle.step? step = some (packet, next) → next.fixture = s.fixture := by
    intro middle step packet next hkept hstep
    exact (frame_of_step hstep).fixture.trans hkept
  exact run?_keeps hkeeps hrun rfl

/-- In every run of either algorithm, each step keeps to its frame, a change to
the phase that holds already is no change, and the fixture is that of the
start. -/
theorem steps_keep_frames {settings : Settings} (hvalid : settings.validate = .ok ()) :
    ∃ start, create settings = .ok start ∧
      ∀ steps packets reached, start.run? steps = some (packets, reached) →
        reached.fixture = start.fixture ∧
        (∀ step packet next, reached.step? step = some (packet, next) →
          Frame reached step next) ∧
        ∀ bytesInFlight,
          reached.step? (.setPhase reached.connection.phase bytesInFlight) =
            some (none, reached) := by
  obtain ⟨_, _, _, _, hcreate⟩ := create_fresh hvalid
  refine ⟨_, hcreate, ?_⟩
  intro steps packets reached hrun
  refine ⟨fixture_of_run hrun, ?_, ?_⟩
  · intro step packet next hstep
    exact frame_of_step hstep
  · intro bytesInFlight
    rw [step?, setPhase_same]

def lossInReduction : List Step :=
  [.acknowledge 1 .threeMillis 1448, .setPhase .cwr 20000, .signal .loss]

/-- A mark that no classic queue explains is noted and moves no window. -/
theorem steps_keep_frames_lossInReduction :
    Settings.default.validate = .ok () ∧
      ∃ start reached next, create .default = .ok start ∧
        start.run? lossInReduction = some ([], reached) ∧ reached.fixture = start.fixture ∧
        reached.step? (.signal .marked) = some (none, next) ∧
        next.connection.cwnd = reached.connection.cwnd ∧
        next.connection.ssthresh = reached.connection.ssthresh ∧
        next.connection.ecnState ≠ reached.connection.ecnState ∧
        reached.step? (.setPhase .cwr 40000) = some (none, reached) := by
  have hvalid : Settings.default.validate = .ok () := by
    rw [Settings.validate_eq_ok_iff]
    decide +kernel
  obtain ⟨start, hcreate, h⟩ := steps_keep_frames hvalid
  cases Except.ok.inj (hcreate.symm.trans (create_eq_startPrague hvalid rfl))
  obtain ⟨hfixture, hframe, hsame⟩ := h lossInReduction _ _ rfl
  have hnext := hframe (.signal .marked) _ _ rfl
  exact ⟨hvalid, _, _, _, hcreate, rfl, hfixture, rfl, hnext.cwnd rfl (by decide +kernel),
    hnext.ssthresh (by decide +kernel), by decide +kernel, hsame 40000⟩

end Session

end ScalableCongestion
