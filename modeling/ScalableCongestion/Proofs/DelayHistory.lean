import ScalableCongestion.Proofs.Control.Window
import ScalableCongestion.Proofs.Delay.ClassicQueue
import ScalableCongestion.Proofs.Delay.SmoothedRtt
import ScalableCongestion.Proofs.Session.Run
import ScalableCongestion.Proofs.Session.Start

/-! What a Prague session knows of delay, told from the steps it was fed. The
smoothed round trip follows every measurement. The detector of a classic queue
sees only those outside recovery: its base is the least of them, and its
suspicion is the comparison made right after the latest of them. -/
namespace ScalableCongestion

/-- The round trip that a step measures; one of zero is no measurement. -/
def Step.measured? : Step → Option Duration
  | .acknowledge _ rtt _ => if rtt.isZero then none else some rtt
  | _ => none

def Phase.after (phase : Phase) : Step → Phase
  | .setPhase next _ => next
  | _ => phase

/-- The measurement that the detector sees of a step that begins in `phase`. -/
def Phase.sampled? (phase : Phase) (step : Step) : Option Duration :=
  if phase = .recovery ∨ phase = .loss then none else step.measured?

namespace Session

def measurements (steps : List Step) : List Nat :=
  (steps.filterMap Step.measured?).map Duration.nanos

def phaseAfter (steps : List Step) : Phase := steps.foldl Phase.after .normal

/-- The measurements that the detector sees in steps that begin in `phase`. -/
def samplesFrom (phase : Phase) : List Step → List Nat
  | [] => []
  | step :: steps =>
    ((phase.sampled? step).map Duration.nanos).toList ++ samplesFrom (phase.after step) steps

def queueSamples (steps : List Step) : List Nat := samplesFrom .normal steps

/-- What history makes of the classic queue: nothing before the first sample, and
then the comparison with what held right after the latest sample. -/
inductive Suspicion (start : Session) (steps : List Step) : Bool → Prop where
  | unsampled (nothing : queueSamples steps = []) : Suspicion start steps false
  | sampled (past : List Step) (step : Step) (later : List Step) (packets : List ControlPacket)
    (s : Session) (p : Prague) (base : Duration) (split : steps = past ++ step :: later)
    (sampled : ((phaseAfter past).sampled? step).isSome = true)
    (latest : samplesFrom ((phaseAfter past).after step) later = [])
    (run : start.run? (past ++ [step]) = some (packets, s))
    (controller : s.controller = .prague p) (baseRtt : p.queue.baseRtt = some base) :
    Suspicion start steps (decide (base.nanos + 3000000 < s.connection.srtt.nanos))

theorem measurements_concat (past : List Step) (step : Step) :
    measurements (past ++ [step]) =
      measurements past ++ (step.measured?.map Duration.nanos).toList := by
  unfold measurements
  rw [List.filterMap_append, List.map_append]
  cases h : step.measured? <;> simp [h]

theorem phaseAfter_concat (past : List Step) (step : Step) :
    phaseAfter (past ++ [step]) = (phaseAfter past).after step := by
  rw [phaseAfter, List.foldl_append]
  rfl

theorem samplesFrom_append (phase : Phase) (past later : List Step) :
    samplesFrom phase (past ++ later) =
      samplesFrom phase past ++ samplesFrom (past.foldl Phase.after phase) later := by
  induction past generalizing phase with
  | nil => rfl
  | cons step past ih =>
      simp only [List.cons_append, samplesFrom, ih, List.foldl_cons, List.append_assoc]

theorem samplesFrom_singleton (phase : Phase) (step : Step) :
    samplesFrom phase [step] = ((phase.sampled? step).map Duration.nanos).toList :=
  List.append_nil _

theorem queueSamples_concat (past : List Step) (step : Step) :
    queueSamples (past ++ [step]) =
      queueSamples past ++ (((phaseAfter past).sampled? step).map Duration.nanos).toList := by
  rw [queueSamples, samplesFrom_append, samplesFrom_singleton]
  rfl

theorem min?_concat (samples : List Nat) (sample : Nat) :
    (samples ++ [sample]).min? = some (samples.min?.elim sample (min · sample)) := by
  cases samples with
  | nil => rfl
  | cons first samples =>
      simp only [List.cons_append, List.min?_cons', List.foldl_append, List.foldl_cons,
        List.foldl_nil, Option.elim_some]

theorem Suspicion.unseen {start : Session} {past : List Step} {step : Step} {suspected : Bool}
    (h : Suspicion start past suspected) (hunseen : (phaseAfter past).sampled? step = none) :
    Suspicion start (past ++ [step]) suspected := by
  cases h with
  | unsampled nothing =>
      apply Suspicion.unsampled
      rw [queueSamples_concat, nothing, hunseen]
      rfl
  | sampled before seen later packets s p base split sampled latest run controller baseRtt =>
      refine .sampled before seen (later ++ [step]) packets s p base ?_ sampled ?_ run controller
        baseRtt
      · rw [split, List.append_assoc, List.cons_append]
      · have hphase : phaseAfter past =
            later.foldl Phase.after ((phaseAfter before).after seen) := by
          rw [split, phaseAfter, List.foldl_append]
          rfl
        rw [samplesFrom_append, latest, samplesFrom_singleton, ← hphase, hunseen]
        rfl

end Session

namespace Prague

theorem queue_of_acknowledge {p next : Prague} {c after : Connection} {a : Acknowledgement}
    (h : p.acknowledge? c a = some (next, after)) :
    next.queue =
      if (c.phase = .recovery ∨ c.phase = .loss) ∨ a.rtt.isZero = true then p.queue
      else p.queue.sampled a.rtt c.srtt := by
  rcases acknowledge?_eq_some h with ⟨hphase, rfl, _⟩ | ⟨hphase, change, queue, hsample, rfl, _⟩
  · rw [if_pos (.inl ((Phase.isRecovering_iff c.phase).mp hphase))]
  · cases hrtt : a.rtt.isZero with
    | true =>
        rw [ClassicQueue.sample?_zero _ _ hrtt] at hsample
        cases hsample
        rw [if_pos (.inr rfl)]
        rfl
    | false =>
        obtain ⟨hqueue, _⟩ := ClassicQueue.sample?_eq_some hrtt hsample
        obtain ⟨hrecovery, hloss⟩ := (Phase.isRecovering_eq_false_iff c.phase).mp hphase
        rw [if_neg (by simp [hrecovery, hloss])]
        exact hqueue

end Prague

namespace Session

variable {s next : Session} {step : Step} {packet : Option ControlPacket}

theorem timing?_of_measured {rtt srtt : Duration} {averages : SmoothedRtt}
    (h : s.measure? rtt = some { s with rtt := averages, connection := s.connection.timed srtt }) :
    s.timing? rtt = some (srtt, averages) := by
  rw [measure?_eq] at h
  obtain ⟨⟨srtt', averages'⟩, htiming, hsession⟩ := Option.map_eq_some_iff.mp h
  have hsrtt : srtt' = srtt := congrArg (·.connection.srtt) hsession
  have haverages : averages' = averages := congrArg (·.rtt) hsession
  rw [htiming, hsrtt, haverages]

/-- Everything that a step does to what the session knows of delay. -/
structure Delayed (s : Session) (step : Step) (next : Session) : Prop where
  phase : next.connection.phase = s.connection.phase.after step
  timing : match step.measured? with
    | none => next.rtt = s.rtt ∧ next.connection.srtt = s.connection.srtt
    | some rtt => s.rtt.update? rtt = some (next.connection.srtt, next.rtt)
  queue : ∀ p, s.controller = .prague p → ∃ p', next.controller = .prague p' ∧
    p'.queue = match s.connection.phase.sampled? step with
      | none => p.queue
      | some rtt => p.queue.sampled rtt next.connection.srtt

theorem Delayed.of_same (hphase : next.connection.phase = s.connection.phase.after step)
    (hmeasured : step.measured? = none) (hrtt : next.rtt = s.rtt)
    (hsrtt : next.connection.srtt = s.connection.srtt)
    (hqueue : ∀ p, s.controller = .prague p →
      ∃ p', next.controller = .prague p' ∧ p'.queue = p.queue) :
    Delayed s step next := by
  have hsampled : s.connection.phase.sampled? step = none := by
    rw [Phase.sampled?, hmeasured, ite_self]
  refine ⟨hphase, ?_, ?_⟩
  · rw [hmeasured]
    exact ⟨hrtt, hsrtt⟩
  · rw [hsampled]
    exact hqueue

theorem delayed_of_acknowledge {segments bytes : UInt32} {rtt srtt : Duration}
    {averages : SmoothedRtt} {controller : Controller} {connection : Connection}
    (measured : s.measure? rtt =
      some { s with rtt := averages, connection := s.connection.timed srtt })
    (controlled : s.controller.acknowledge? (s.connection.timed srtt)
      ⟨segments, rtt, s.mailbox.pending, bytes⟩ = some (controller, connection)) :
    Delayed s (.acknowledge segments rtt bytes)
      ⟨connection, controller, .empty, averages, s.outbox⟩ := by
  obtain ⟨cwnd, rfl, _⟩ := Controller.acknowledge?_grows controlled
  have htiming := timing?_of_measured measured
  unfold timing? at htiming
  refine ⟨rfl, ?_, ?_⟩
  · cases hrtt : rtt.isZero with
    | true =>
        rw [if_pos hrtt] at htiming
        cases htiming
        simp only [Step.measured?, hrtt, ↓reduceIte]
        trivial
    | false =>
        rw [hrtt, if_neg Bool.false_ne_true] at htiming
        simp only [Step.measured?, hrtt, Bool.false_eq_true, ↓reduceIte]
        exact htiming
  · intro p hp
    rw [hp] at controlled
    obtain ⟨p', hp', hacknowledge⟩ := Controller.acknowledge?_prague controlled
    refine ⟨p', hp', ?_⟩
    rw [Prague.queue_of_acknowledge hacknowledge, Phase.sampled?, Step.measured?]
    rw [Connection.timed_phase]
    by_cases hrecovering : s.connection.phase = .recovery ∨ s.connection.phase = .loss <;>
      cases hzero : rtt.isZero <;> simp [hrecovering]

theorem delayed_of_signal (event : Signal) : Delayed s (.signal event) (s.signal event) := by
  obtain ⟨_, _, _, hconnection⟩ := s.controller.signal_connection s.connection event
  have hphase := congrArg Connection.phase hconnection
  have hsrtt := congrArg Connection.srtt hconnection
  refine .of_same hphase rfl rfl hsrtt ?_
  intro p hp
  rw [signal_prague hp]
  refine ⟨_, rfl, ?_⟩
  rw [Prague.signal_frame]

theorem delayed_of_step (hstep : s.step? step = some (packet, next)) : Delayed s step next := by
  have same (p : Prague) (hp : s.controller = .prague p) :
      ∃ p', s.controller = .prague p' ∧ p'.queue = p.queue := ⟨p, hp, rfl⟩
  cases effect_of_step? hstep with
  | deposit _ => exact .of_same rfl rfl rfl rfl same
  | depositFound _ _ _ => exact .of_same rfl rfl rfl rfl same
  | nothingFound _ _ => exact .of_same rfl rfl rfl rfl same
  | acknowledge _ _ _ averages srtt controller connection measured controlled =>
      exact delayed_of_acknowledge measured controlled
  | setPhase phase bytesInFlight =>
      exact .of_same (s.connection.phase_enter phase bytesInFlight) rfl rfl
        (s.connection.srtt_enter phase bytesInFlight) same
  | signal event => exact delayed_of_signal event
  | pollNothing _ => exact .of_same rfl rfl rfl rfl same
  | poll _ _ _ => exact .of_same rfl rfl rfl rfl same
  | setRcvNxt _ => exact .of_same rfl rfl rfl rfl same
  | setSndNxt _ => exact .of_same rfl rfl rfl rfl same

theorem Delayed.averages {past : List Step} (h : Delayed s step next)
    (haverages : s.rtt.Averages (measurements past))
    (hsrtt : s.connection.srtt.nanos = SmoothedRtt.average (measurements past)) :
    next.rtt.Averages (measurements (past ++ [step])) ∧
      next.connection.srtt.nanos = SmoothedRtt.average (measurements (past ++ [step])) := by
  have htiming := h.timing
  rw [measurements_concat]
  cases hmeasured : step.measured? with
  | none =>
      rw [hmeasured] at htiming
      rw [htiming.1, htiming.2, Option.map_none, Option.toList_none, List.append_nil]
      exact ⟨haverages, hsrtt⟩
  | some rtt =>
      rw [hmeasured] at htiming
      obtain ⟨hsrtt', haverages'⟩ := haverages.update htiming
      exact ⟨haverages', hsrtt'⟩

/-- A session that knows of delay what the history of its steps says. -/
structure Measured (start : Session) (past : List Step) (s : Session) : Prop where
  phase : s.connection.phase = phaseAfter past
  averages : s.rtt.Averages (measurements past)
  srtt : s.connection.srtt.nanos = SmoothedRtt.average (measurements past)
  queue : ∃ p, s.controller = .prague p ∧
    p.queue.baseRtt.map Duration.nanos = (queueSamples past).min? ∧
    Suspicion start past p.inFallback

theorem Measured.extend {start : Session} {past : List Step} {packets : List ControlPacket}
    (h : Measured start past s) (hrun : start.run? past = some (packets, s))
    (hstep : s.step? step = some (packet, next)) : Measured start (past ++ [step]) next := by
  have hdelayed := delayed_of_step hstep
  obtain ⟨haverages, hsrtt⟩ := hdelayed.averages h.averages h.srtt
  obtain ⟨p, hp, hbase, hsuspicion⟩ := h.queue
  obtain ⟨p', hp', hqueue⟩ := hdelayed.queue p hp
  refine ⟨?_, haverages, hsrtt, p', hp', ?_⟩
  · rw [hdelayed.phase, h.phase, phaseAfter_concat]
  · -- the phase before the step decides whether the detector sees it
    rw [h.phase] at hqueue
    rw [queueSamples_concat]
    cases hsampled : (phaseAfter past).sampled? step with
    | none =>
        rw [hsampled] at hqueue
        have hfallback : p'.inFallback = p.inFallback := congrArg ClassicQueue.suspected hqueue
        rw [hqueue, hfallback, Option.map_none, Option.toList_none, List.append_nil]
        exact ⟨hbase, hsuspicion.unseen hsampled⟩
    | some rtt =>
        rw [hsampled] at hqueue
        have hfallback : p'.inFallback =
            decide ((p.queue.lowered rtt).nanos + 3000000 < next.connection.srtt.nanos) :=
          congrArg ClassicQueue.suspected hqueue
        have hlowered : p'.queue.baseRtt = some (p.queue.lowered rtt) :=
          congrArg ClassicQueue.baseRtt hqueue
        constructor
        · rw [hlowered, Option.map_some, Option.map_some, Option.toList_some, min?_concat, ← hbase,
            ClassicQueue.nanos_lowered]
        · rw [hfallback]
          exact .sampled past step [] _ next p' _ rfl (Option.isSome_of_eq_some hsampled) rfl
            (run?_concat hrun hstep) hp' hlowered

theorem measured_of_run {start reached : Session} {steps : List Step}
    {packets : List ControlPacket} (hstart : Measured start [] start)
    (hrun : start.run? steps = some (packets, reached)) : Measured start steps reached :=
  run?_induction (motive := fun steps _ reached => Measured start steps reached) hstart
    (fun _ _ _ _ _ _ hpast hmeasured hstep => hmeasured.extend hpast hstep) hrun

theorem measured_start (settings : Settings) :
    Measured (startPrague settings) [] (startPrague settings) :=
  ⟨rfl, SmoothedRtt.averages_initial, rfl, _, rfl, rfl, .unsampled rfl⟩

/-- In every run of a Prague session the smoothed round trip, the base and the
suspicion are those of its history. On its own the detector reports changes in
turn, the first that it enters suspicion. -/
theorem delay_follows_history :
    (∀ settings, settings.validate = .ok () → settings.algorithm = .prague →
      ∃ start, create settings = .ok start ∧
        ∀ steps packets reached, start.run? steps = some (packets, reached) →
          reached.connection.phase = phaseAfter steps ∧
          reached.connection.srtt.nanos = SmoothedRtt.average (measurements steps) ∧
          ∃ p, reached.controller = .prague p ∧
            p.queue.baseRtt.map Duration.nanos = (queueSamples steps).min? ∧
            Suspicion start steps p.inFallback) ∧
    ∀ samples changes q, ClassicQueue.initial.samples? samples = some (changes, q) →
      (∀ i, (h : i < changes.length) →
        changes[i] = if i % 2 = 0 then .entered else .exited) ∧
      q.suspected = decide (changes.getLast? = some .entered) := by
  constructor
  · intro settings hvalid halgorithm
    refine ⟨_, create_eq_startPrague hvalid halgorithm, ?_⟩
    intro steps packets reached hrun
    have hreached := measured_of_run (measured_start settings) hrun
    exact ⟨hreached.phase, hreached.srtt, hreached.queue⟩
  · intro samples changes q hsamples
    have halternate := ClassicQueue.alternate_of_samples? hsamples
    constructor
    · intro i h
      rw [halternate.getElem_eq i h]
      simp [ClassicQueue.initial]
    · rw [halternate.after_eq]
      cases changes.getLast? <;> simp [ClassicQueue.initial]

def tenMillis : Duration := ⟨10000000, by decide⟩

def twoMillis : Duration := ⟨2000000, by decide⟩

def fourMillis : Duration := ⟨4000000, by decide⟩

def shortInRecovery : List Step :=
  [.acknowledge 1 tenMillis 1448, .setPhase .recovery 0, .acknowledge 1 twoMillis 1448,
    .setPhase .normal 0, .acknowledge 1 fourMillis 1448, .acknowledge 1 .zero 1448]

def suspectedOnce : List (Duration × Duration) :=
  [(tenMillis, tenMillis), (.zero, .zero), (fourMillis, tenMillis), (tenMillis, tenMillis),
    (fourMillis, fourMillis)]

theorem delay_follows_history_shortInRecovery :
    Settings.default.validate = .ok () ∧ Settings.default.algorithm = .prague ∧
      ∃ reached p q, create .default = .ok (startPrague .default) ∧
        (startPrague .default).run? shortInRecovery = some ([], reached) ∧
        reached.connection.srtt.nanos = 8375000 ∧ reached.controller = .prague p ∧
        p.queue.baseRtt.map Duration.nanos = some 4000000 ∧
        Suspicion (startPrague .default) shortInRecovery true ∧
        ClassicQueue.initial.samples? suspectedOnce = some ([.entered, .exited], q) ∧
        q.suspected = false := by
  have hvalid : Settings.default.validate = .ok () := by
    rw [Settings.validate_eq_ok_iff]
    decide +kernel
  obtain ⟨hsession, hdetector⟩ := delay_follows_history
  obtain ⟨start, hcreate, h⟩ := hsession .default hvalid rfl
  cases Except.ok.inj (hcreate.symm.trans (create_eq_startPrague hvalid rfl))
  obtain ⟨_, hsrtt, p, hp, hbase, hsuspicion⟩ := h shortInRecovery _ _ rfl
  cases Controller.prague.inj hp
  obtain ⟨_, hsuspected⟩ := hdetector suspectedOnce _ _ rfl
  exact ⟨hvalid, rfl, _, _, _, hcreate, rfl, hsrtt, rfl, hbase, hsuspicion, rfl, hsuspected⟩

end Session

end ScalableCongestion
