import ScalableCongestion.Proofs.Control.Prague
import ScalableCongestion.Proofs.Session.Run
import ScalableCongestion.Proofs.Session.Start
import ScalableCongestion.Proofs.Session.Step

/-! What the congestion estimate cannot influence. Two Prague sessions that
differ in the settings of the estimator, in the reports they get and in the
amounts acknowledged keep the same connection, detector and echo, and hand out
the same packets. The estimate reaches the window in one place only, a loss
during a reduction that is under way. -/
namespace ScalableCongestion

structure Prague.SameButEstimate (p p' : Prague) : Prop where
  queue : p.queue = p'.queue
  echo : p.echo = p'.echo
  useEct0 : p.useEct0 = p'.useEct0
  initialized : p.initialized = p'.initialized

namespace Step

def isReport : Step → Bool
  | .aceOption _ => true
  | .segmentOptions _ => true
  | _ => false

/-- Two steps that differ at most in what they report about marks and in the
amounts that they acknowledge. -/
inductive SameButReports : Step → Step → Prop where
  | same (step : Step) : SameButReports step step
  | report {step step' : Step} (first : step.isReport = true) (second : step'.isReport = true) :
    SameButReports step step'
  | acknowledge (rtt : Duration) (segments segments' bytes bytes' : UInt32) :
    SameButReports (.acknowledge segments rtt bytes) (.acknowledge segments' rtt bytes')

end Step

/-- Two Prague sessions that agree on all but the estimate and the pending
report. -/
structure Session.SameButEstimate (s s' : Session) : Prop where
  connection : s.connection = s'.connection
  controller : ∃ p p', s.controller = .prague p ∧ s'.controller = .prague p' ∧
    p.SameButEstimate p'
  rtt : s.rtt = s'.rtt
  outbox : s.outbox = s'.outbox

namespace Prague.SameButEstimate

variable {p p' : Prague}

def Answers (answer answer' : Option ControlPacket × Prague × Connection) : Prop :=
  answer.1 = answer'.1 ∧ answer.2.1.SameButEstimate answer'.2.1 ∧ answer.2.2 = answer'.2.2

theorem observe (h : p.SameButEstimate p') (c : Connection) (marked : Bool) :
    Answers (p.observe c marked) (p'.observe c marked) := by
  unfold Prague.observe
  rw [h.echo]
  exact ⟨rfl, ⟨h.queue, rfl, h.useEct0, h.initialized⟩, rfl⟩

theorem reserve (h : p.SameButEstimate p') (reserved : Bool) :
    { p with echo := p.echo.reserve reserved }.SameButEstimate
      { p' with echo := p'.echo.reserve reserved } :=
  ⟨h.queue, congrArg (·.reserve reserved) h.echo, h.useEct0, h.initialized⟩

/-- The estimate scales the window only where a loss meets a reduction. -/
theorem signal (h : p.SameButEstimate p') {c : Connection} {event : Signal}
    (hevent : event = .loss → c.phase ≠ .cwr) : Answers (p.signal c event) (p'.signal c event) := by
  cases event with
  | loss =>
      have hhalve (p : Prague) : p.lose c = c.halve := if_neg (hevent rfl)
      exact ⟨rfl, h, (hhalve p).trans (hhalve p').symm⟩
  | marked =>
      have hfallback : p.inFallback = p'.inFallback := congrArg ClassicQueue.suspected h.queue
      simp only [Prague.signal, hfallback]
      split
      · exact ⟨rfl, h, rfl⟩
      · exact h.observe c true
  | unmarked => exact h.observe c false
  | delayedAck => exact ⟨rfl, h.reserve true, rfl⟩
  | immediateAck => exact ⟨rfl, h.reserve false, rfl⟩
  | _ => exact ⟨rfl, h, rfl⟩

theorem folded (h : p.SameButEstimate p') (queue : ClassicQueue) (a a' : Acknowledgement) :
    (p.folded queue a).SameButEstimate (p'.folded queue a') :=
  ⟨rfl, h.echo, h.useEct0, h.initialized⟩

theorem acknowledge? (h : p.SameButEstimate p') (c : Connection) (a a' : Acknowledgement)
    (hrtt : a.rtt = a'.rtt) :
    Option.Rel (fun result result' => result.1.SameButEstimate result'.1 ∧ result.2 = result'.2)
      (p.acknowledge? c a) (p'.acknowledge? c a') := by
  cases hphase : c.phase.isRecovering with
  | true =>
      rw [acknowledge?_recovering hphase, acknowledge?_recovering hphase]
      exact .some ⟨h, rfl⟩
  | false =>
      rw [acknowledge?_taken hphase, acknowledge?_taken hphase, h.queue, hrtt]
      cases p'.queue.sample? a'.rtt c.srtt with
      | none => exact .none
      | some sampled =>
          obtain ⟨_, queue⟩ := sampled
          rw [Option.map_some, Option.map_some]
          exact .some ⟨h.folded queue a a', rfl⟩

end Prague.SameButEstimate

namespace Session

variable {s s' : Session} {step step' : Step}

theorem step?_report (hreport : step.isReport = true) (s : Session) :
    ∃ mailbox, s.step? step = some (none, { s with mailbox }) := by
  cases step with
  | aceOption o => exact ⟨⟨o.ceBytes⟩, rfl⟩
  | segmentOptions bytes =>
      cases hfound : findAce? bytes with
      | none => exact ⟨s.mailbox, by simp only [step?, receiveOptions, hfound]⟩
      | some o => exact ⟨⟨o.ceBytes⟩, by simp only [step?, receiveOptions, hfound]; rfl⟩
  | _ => contradiction

namespace SameButEstimate

theorem report (h : SameButEstimate s s') (first : step.isReport = true)
    (second : step'.isReport = true) :
    Agree SameButEstimate (s.step? step) (s'.step? step') := by
  obtain ⟨mailbox, hstep⟩ := step?_report first s
  obtain ⟨mailbox', hstep'⟩ := step?_report second s'
  rw [hstep, hstep']
  exact .some ⟨rfl, h.connection, h.controller, h.rtt, h.outbox⟩

theorem timing? (h : SameButEstimate s s') (rtt : Duration) : s.timing? rtt = s'.timing? rtt := by
  unfold Session.timing?
  rw [h.connection, h.rtt]

theorem acknowledge (h : SameButEstimate s s') (rtt : Duration)
    (segments segments' bytes bytes' : UInt32) :
    Agree SameButEstimate (s.step? (.acknowledge segments rtt bytes))
      (s'.step? (.acknowledge segments' rtt bytes')) := by
  obtain ⟨p, p', hp, hp', hsame⟩ := h.controller
  rw [step?, step?, acknowledge?_eq, acknowledge?_eq, h.timing?, h.connection, hp, hp']
  cases s'.timing? rtt with
  | none => exact .none
  | some timed =>
      obtain ⟨srtt, averages⟩ := timed
      have hcontrolled := hsame.acknowledge? (s'.connection.timed srtt)
        ⟨segments, rtt, s.mailbox.pending, bytes⟩ ⟨segments', rtt, s'.mailbox.pending, bytes'⟩ rfl
      simp only [Option.bind_some, Controller.acknowledge?]
      revert hcontrolled
      generalize p.acknowledge? _ _ = after
      generalize p'.acknowledge? _ _ = after'
      intro hcontrolled
      cases hcontrolled with
      | none => exact .none
      | some hafter =>
          obtain ⟨hcontroller, hconnection⟩ := hafter
          exact .some ⟨rfl, hconnection, ⟨_, _, rfl, rfl, hcontroller⟩, rfl, h.outbox⟩

theorem setPhase (h : SameButEstimate s s') (phase : Phase) (bytesInFlight : UInt32) :
    SameButEstimate (s.setPhase phase bytesInFlight) (s'.setPhase phase bytesInFlight) := by
  rw [setPhase_eq, setPhase_eq]
  refine ⟨?_, h.controller, h.rtt, h.outbox⟩
  exact congrArg (·.enter phase bytesInFlight) h.connection

theorem signal (h : SameButEstimate s s') {event : Signal}
    (hevent : event = .loss → s.connection.phase ≠ .cwr) :
    SameButEstimate (s.signal event) (s'.signal event) := by
  obtain ⟨p, p', hp, hp', hsame⟩ := h.controller
  obtain ⟨hpacket, hcontroller, hconnection⟩ := hsame.signal hevent
  rw [signal_prague hp, signal_prague hp', ← h.connection, ← h.outbox, ← hpacket]
  exact ⟨hconnection, ⟨_, _, rfl, rfl, hcontroller⟩, h.rtt, rfl⟩

theorem poll (h : SameButEstimate s s') :
    s.poll.1 = s'.poll.1 ∧ SameButEstimate s.poll.2 s'.poll.2 := by
  unfold Session.poll
  rw [← h.outbox]
  cases s.outbox with
  | nil => exact ⟨rfl, h⟩
  | cons packet rest => exact ⟨rfl, h.connection, h.controller, h.rtt, rfl⟩

theorem setRcvNxt (h : SameButEstimate s s') (seq : SequenceNumber) :
    SameButEstimate (s.setRcvNxt seq) (s'.setRcvNxt seq) :=
  ⟨congrArg (fun c => { c with rcvNxt := seq }) h.connection, h.controller, h.rtt, h.outbox⟩

theorem setSndNxt (h : SameButEstimate s s') (seq : SequenceNumber) :
    SameButEstimate (s.setSndNxt seq) (s'.setSndNxt seq) :=
  ⟨congrArg (fun c => { c with sndNxt := seq }) h.connection, h.controller, h.rtt, h.outbox⟩

theorem agree_same (h : SameButEstimate s s')
    (hloss : ¬(step = .signal .loss ∧ s.connection.phase = .cwr)) :
    Agree SameButEstimate (s.step? step) (s'.step? step) := by
  cases step with
  | aceOption _ => exact h.report rfl rfl
  | segmentOptions _ => exact h.report rfl rfl
  | acknowledge segments rtt bytes => exact h.acknowledge rtt segments segments bytes bytes
  | setPhase phase bytesInFlight => exact .some ⟨rfl, h.setPhase phase bytesInFlight⟩
  | signal event =>
      have hevent : event = .loss → s.connection.phase ≠ .cwr := by
        rintro rfl hphase
        exact hloss ⟨rfl, hphase⟩
      exact .some ⟨rfl, h.signal hevent⟩
  | poll => exact .some h.poll
  | setRcvNxt seq => exact .some ⟨rfl, h.setRcvNxt seq⟩
  | setSndNxt seq => exact .some ⟨rfl, h.setSndNxt seq⟩

theorem agree (h : SameButEstimate s s') (hmatched : step.SameButReports step')
    (hloss : ¬(step = .signal .loss ∧ s.connection.phase = .cwr)) :
    Agree SameButEstimate (s.step? step) (s'.step? step') := by
  cases hmatched with
  | same _ => exact h.agree_same hloss
  | report first second => exact h.report first second
  | acknowledge rtt segments segments' bytes bytes' =>
      exact h.acknowledge rtt segments segments' bytes bytes'

end SameButEstimate

theorem sameButEstimate_start (settings : Settings) (gain initialAlpha : Float) :
    SameButEstimate (startPrague settings) (startPrague { settings with gain, initialAlpha }) :=
  ⟨rfl, ⟨_, _, rfl, rfl, rfl, rfl, rfl, rfl⟩, rfl, rfl⟩

/-- Settings of the estimator, reports and acknowledged amounts change nothing
that shows, after any number of steps, while no loss meets a reduction under
way. Where one run has no result, neither does the other. -/
theorem estimate_independent {settings : Settings} {gain initialAlpha : Float}
    (hvalid : settings.validate = .ok ()) (halgorithm : settings.algorithm = .prague)
    (hvalid' : { settings with gain, initialAlpha }.validate = .ok ()) :
    ∃ start start', create settings = .ok start ∧
      create { settings with gain, initialAlpha } = .ok start' ∧
      ∀ steps steps', List.Forall₂ Step.SameButReports steps steps' →
        start.Along (fun s step => ¬(step = .signal .loss ∧ s.connection.phase = .cwr)) steps →
        ∀ k, Agree SameButEstimate (start.run? (steps.take k)) (start'.run? (steps'.take k)) := by
  have hcreate := create_eq_startPrague hvalid halgorithm
  have hcreate' := create_eq_startPrague hvalid' halgorithm
  refine ⟨_, _, hcreate, hcreate', ?_⟩
  intro steps steps' hmatched hallowed k
  exact run?_agree (fun _ _ _ _ h hstep hloss => h.agree hstep hloss)
    (sameButEstimate_start settings gain initialAlpha) (List.forall₂_take k hmatched)
    (hallowed.take k)

def lossThenReduction : List Step :=
  [.aceOption ⟨724⟩, .acknowledge 1 .threeMillis 1448, .signal .loss, .setPhase .cwr 4000,
    .acknowledge 1 .threeMillis 1448, .signal .delayedAck, .signal .marked, .signal .unmarked,
    .poll]

def unreportedLoss : List Step :=
  [.aceOption ⟨0⟩, .acknowledge 9 .threeMillis 0, .signal .loss, .setPhase .cwr 4000,
    .acknowledge 4 .threeMillis 1, .signal .delayedAck, .signal .marked, .signal .unmarked, .poll]

theorem estimate_independent_lossThenReduction :
    Settings.default.validate = .ok () ∧ Settings.default.algorithm = .prague ∧
      { Settings.default with gain := 0.5, initialAlpha := 0.25 }.validate = .ok () ∧
      ∃ start' reached reached',
        create { Settings.default with gain := 0.5, initialAlpha := 0.25 } = .ok start' ∧
        (startPrague .default).run? lossThenReduction = some ([.withEcho ⟨0⟩], reached) ∧
        start'.run? unreportedLoss = some ([.withEcho ⟨0⟩], reached') ∧
        SameButEstimate reached reached' ∧
        reached.controller.alpha?.map Float.toBits ≠
          reached'.controller.alpha?.map Float.toBits := by
  have hvalid : Settings.default.validate = .ok () := by
    rw [Settings.validate_eq_ok_iff]
    decide +kernel
  have hvalid' : { Settings.default with gain := 0.5, initialAlpha := 0.25 }.validate = .ok () := by
    rw [Settings.validate_eq_ok_iff]
    decide +kernel
  obtain ⟨start, start', hcreate, hcreate', h⟩ := estimate_independent hvalid rfl hvalid'
  cases Except.ok.inj (hcreate.symm.trans (create_eq_startPrague hvalid rfl))
  cases Except.ok.inj (hcreate'.symm.trans (create_eq_startPrague hvalid' rfl))
  have hmatched : List.Forall₂ Step.SameButReports lossThenReduction unreportedLoss :=
    .cons (.report rfl rfl) <| .cons (.acknowledge _ _ _ _ _) <| .cons (.same _) <|
      .cons (.same _) <| .cons (.acknowledge _ _ _ _ _) <| .cons (.same _) <| .cons (.same _) <|
      .cons (.same _) <| .cons (.same _) .nil
  have hallowed : (startPrague .default).Along
      (fun s step => ¬(step = .signal .loss ∧ s.connection.phase = .cwr)) lossThenReduction := by
    refine .cons nofun rfl <| .cons nofun rfl <| .cons (fun hloss => ?_) rfl <|
      .cons nofun rfl <| .cons nofun rfl <| .cons nofun rfl <| .cons nofun rfl <|
      .cons nofun rfl <| .cons nofun rfl trivial
    exact absurd hloss.2 (by decide +kernel)
  have hagree := h lossThenReduction unreportedLoss hmatched hallowed 9
  cases hagree with
  | some hresult =>
      exact ⟨hvalid, rfl, hvalid', _, _, _, hcreate', rfl, rfl, hresult.2, by decide +kernel⟩

end Session

end ScalableCongestion
