import ScalableCongestion.Proofs.DelayHistory

/-! What a Reno session depends on: segments acknowledged, changes of phase and
losses. A session follows a small machine that sees nothing else. Marks, reports,
round trips, polls and sequence numbers are steps in which that machine stands
still, so two sessions that share its inputs share its state, however many other
steps either of them takes. All that can stop a session is a round trip too long
to be averaged. -/
namespace ScalableCongestion

/-- What Reno's windows take in. -/
inductive WindowInput where
  | acknowledged (segments : UInt32)
  | entered (phase : Phase) (bytesInFlight : UInt32)
  | lost

def Step.windowInput? : Step → Option WindowInput
  | .acknowledge segments _ _ => some (.acknowledged segments)
  | .setPhase phase bytesInFlight => some (.entered phase bytesInFlight)
  | .signal .loss => some .lost
  | _ => none

namespace Connection

def clocked (c : Connection) (srtt : Duration) (rcvNxt sndNxt : SequenceNumber) : Connection :=
  { c with srtt, rcvNxt, sndNxt }

structure SameEcn (c c' : Connection) : Prop where
  ecnEnabled : c.ecnEnabled = c'.ecnEnabled
  ecnMode : c.ecnMode = c'.ecnMode
  ecnState : c.ecnState = c'.ecnState
  codepoint : c.codepoint = c'.codepoint

theorem SameEcn.trans {c c' c'' : Connection} (h : c.SameEcn c') (h' : c'.SameEcn c'') :
    c.SameEcn c'' :=
  ⟨h.ecnEnabled.trans h'.ecnEnabled, h.ecnMode.trans h'.ecnMode, h.ecnState.trans h'.ecnState,
    h.codepoint.trans h'.codepoint⟩

theorem sameEcn_enter (c : Connection) (phase : Phase) (bytesInFlight : UInt32) :
    (c.enter phase bytesInFlight).SameEcn c := by
  unfold enter
  split <;> exact ⟨rfl, rfl, rfl, rfl⟩

end Connection

section Clock

variable (c : Connection) (srtt : Duration) (rcvNxt sndNxt : SequenceNumber)

theorem Connection.inSlowStart_clocked :
    (c.clocked srtt rcvNxt sndNxt).inSlowStart = c.inSlowStart := rfl

theorem Connection.enter_clocked (phase : Phase) (bytesInFlight : UInt32) :
    (c.clocked srtt rcvNxt sndNxt).enter phase bytesInFlight =
      (c.enter phase bytesInFlight).clocked srtt rcvNxt sndNxt := by
  unfold enter clocked
  split <;> rfl

namespace Reno

variable (r : Reno)

theorem segments_clocked : segments (c.clocked srtt rcvNxt sndNxt) = segments c := rfl

theorem startup_clocked (acked : UInt32) :
    startup (c.clocked srtt rcvNxt sndNxt) acked =
      ((startup c acked).1, (startup c acked).2.clocked srtt rcvNxt sndNxt) := by
  unfold startup
  rw [Connection.inSlowStart_clocked]
  split <;> rfl

theorem carried_clocked : r.carried (c.clocked srtt rcvNxt sndNxt) = r.carried c := rfl

theorem advanced_clocked :
    r.advanced (c.clocked srtt rcvNxt sndNxt) = (r.advanced c).clocked srtt rcvNxt sndNxt := by
  unfold advanced
  rw [segments_clocked]
  split <;> rfl

theorem spread_clocked (window total : UInt32) :
    spread window total (c.clocked srtt rcvNxt sndNxt) =
      ((spread window total c).1, (spread window total c).2.clocked srtt rcvNxt sndNxt) := by
  unfold spread
  split <;> rfl

theorem avoidCongestion_clocked (acked : UInt32) :
    r.avoidCongestion (c.clocked srtt rcvNxt sndNxt) acked =
      ((r.avoidCongestion c acked).1,
        (r.avoidCongestion c acked).2.clocked srtt rcvNxt sndNxt) := by
  rw [avoidCongestion_eq, avoidCongestion_eq, segments_clocked, carried_clocked, advanced_clocked,
    spread_clocked]

theorem steady_clocked (left : UInt32) :
    r.steady (c.clocked srtt rcvNxt sndNxt) left =
      ((r.steady c left).1, (r.steady c left).2.clocked srtt rcvNxt sndNxt) := by
  unfold steady
  rw [Connection.inSlowStart_clocked]
  split
  · exact r.avoidCongestion_clocked c srtt rcvNxt sndNxt left
  · rfl

theorem acknowledge_clocked (acked : UInt32) :
    r.acknowledge (c.clocked srtt rcvNxt sndNxt) acked =
      ((r.acknowledge c acked).1, (r.acknowledge c acked).2.clocked srtt rcvNxt sndNxt) := by
  have hphase : (c.clocked srtt rcvNxt sndNxt).phase = c.phase := rfl
  cases hgrows : growsIn c.phase with
  | false => rw [acknowledge_frozen hgrows, acknowledge_frozen (hphase ▸ hgrows)]
  | true =>
      rw [acknowledge_eq hgrows, acknowledge_eq (hphase ▸ hgrows), startup_clocked, steady_clocked]

end Reno

end Clock

def Reno.follow (state : Reno × Connection) : WindowInput → Reno × Connection
  | .acknowledged segments => state.1.acknowledge state.2 segments
  | .entered phase bytesInFlight => (state.1, state.2.enter phase bytesInFlight)
  | .lost => state.1.signal state.2 .loss

theorem Reno.sameEcn_follow (state : Reno × Connection) (input : WindowInput) :
    (follow state input).2.SameEcn state.2 := by
  cases input with
  | acknowledged segments =>
      rw [follow, acknowledge_frame]
      exact ⟨rfl, rfl, rfl, rfl⟩
  | entered phase bytesInFlight => exact state.2.sameEcn_enter phase bytesInFlight
  | lost => exact ⟨rfl, rfl, rfl, rfl⟩

namespace Session

/-- A session that stands where the machine does, at some time, with no packet
that waits to be sent. -/
structure Tracks (state : Reno × Connection) (s : Session) : Prop where
  controller : s.controller = .reno state.1
  connection : ∃ srtt rcvNxt sndNxt, s.connection = state.2.clocked srtt rcvNxt sndNxt
  outbox : s.outbox = []

variable {state : Reno × Connection} {s next last : Session} {step : Step}
  {packet : Option ControlPacket} {packets : List ControlPacket}

theorem Tracks.of_step (h : Tracks state s) (hstep : s.step? step = some (packet, next)) :
    packet = none ∧ Tracks (step.windowInput?.toList.foldl Reno.follow state) next := by
  obtain ⟨srtt, rcvNxt, sndNxt, hconnection⟩ := h.connection
  cases effect_of_step? hstep with
  | deposit _ => exact ⟨rfl, h.controller, h.connection, h.outbox⟩
  | depositFound _ _ _ => exact ⟨rfl, h.controller, h.connection, h.outbox⟩
  | nothingFound _ _ => exact ⟨rfl, h⟩
  | acknowledge segments _ _ _ srtt' _ _ _ controlled =>
      rw [h.controller] at controlled
      obtain ⟨rfl, rfl⟩ := Controller.acknowledge?_reno controlled
      have htimed : s.connection.timed srtt' = state.2.clocked srtt' rcvNxt sndNxt := by
        rw [hconnection]
        rfl
      rw [htimed, Reno.acknowledge_clocked]
      exact ⟨rfl, rfl, ⟨_, _, _, rfl⟩, h.outbox⟩
  | setPhase phase bytesInFlight =>
      rw [hconnection, Connection.enter_clocked]
      exact ⟨rfl, h.controller, ⟨_, _, _, rfl⟩, h.outbox⟩
  | signal event =>
      rw [signal_reno h.controller, hconnection]
      cases event with
      | loss => exact ⟨rfl, rfl, ⟨_, _, _, rfl⟩, h.outbox⟩
      | _ => exact ⟨rfl, rfl, ⟨_, _, _, rfl⟩, h.outbox⟩
  | pollNothing _ => exact ⟨rfl, h⟩
  | poll _ _ queue => cases h.outbox.symm.trans queue
  | setRcvNxt seq =>
      rw [setRcvNxt, hconnection]
      exact ⟨rfl, h.controller, ⟨srtt, seq, sndNxt, rfl⟩, h.outbox⟩
  | setSndNxt seq =>
      rw [setSndNxt, hconnection]
      exact ⟨rfl, h.controller, ⟨srtt, rcvNxt, seq, rfl⟩, h.outbox⟩

theorem rtt_of_step (hstep : s.step? step = some (packet, next)) :
    s.rtt.updateAll? step.measured?.toList = some next.rtt := by
  have htiming := (delayed_of_step hstep).timing
  cases hmeasured : step.measured? with
  | none =>
      rw [hmeasured] at htiming
      rw [Option.toList_none, SmoothedRtt.updateAll?_nil, htiming.1]
  | some rtt =>
      rw [hmeasured] at htiming
      rw [Option.toList_some, SmoothedRtt.updateAll?_singleton, htiming]
      rfl

theorem rtt_of_run {steps : List Step} (hrun : s.run? steps = some (packets, last)) :
    s.rtt.updateAll? (steps.filterMap Step.measured?) = some last.rtt := by
  refine run?_induction (motive := fun past _ reached =>
    s.rtt.updateAll? (past.filterMap Step.measured?) = some reached.rtt) rfl ?_ hrun
  intro past packets middle step packet next _ hmiddle hstep
  rw [List.filterMap_append, SmoothedRtt.updateAll?_append, hmiddle, Option.bind_some,
    List.filterMap_eq_flatMap_toList, List.flatMap_singleton]
  exact rtt_of_step hstep

theorem exists_timing {segments bytes : UInt32} {rtt : Duration} {averages : SmoothedRtt}
    (h : s.rtt.updateAll? (Step.acknowledge segments rtt bytes).measured?.toList = some averages) :
    ∃ timed, s.timing? rtt = some timed := by
  rw [Step.measured?] at h
  cases hzero : rtt.isZero with
  | true => exact ⟨_, if_pos hzero⟩
  | false =>
      rw [hzero, if_neg Bool.false_ne_true, Option.toList_some,
        SmoothedRtt.updateAll?_singleton] at h
      obtain ⟨timed, htimed, _⟩ := Option.map_eq_some_iff.mp h
      refine ⟨timed, ?_⟩
      rw [timing?, hzero, if_neg Bool.false_ne_true]
      exact htimed

theorem Tracks.exists_step (h : Tracks state s) {averages : SmoothedRtt}
    (haverages : s.rtt.updateAll? step.measured?.toList = some averages) :
    ∃ packet next, s.step? step = some (packet, next) := by
  cases step with
  | acknowledge segments rtt bytes =>
      obtain ⟨timed, htimed⟩ := exists_timing haverages
      rw [step?, acknowledge?_eq, htimed, h.controller]
      exact ⟨_, _, rfl⟩
  | _ => exact ⟨_, _, rfl⟩

/-- A run has a result if its measurements can be averaged, and the machine ends
where the inputs of the run take it. -/
theorem Tracks.run (h : Tracks state s) {steps : List Step} {averages : SmoothedRtt}
    (haverages : s.rtt.updateAll? (steps.filterMap Step.measured?) = some averages) :
    ∃ last, s.run? steps = some ([], last) ∧
      Tracks ((steps.filterMap Step.windowInput?).foldl Reno.follow state) last := by
  induction steps generalizing state s with
  | nil => exact ⟨s, rfl, h⟩
  | cons step steps ih =>
      rw [List.filterMap_eq_flatMap_toList, List.flatMap_cons, ← List.filterMap_eq_flatMap_toList,
        SmoothedRtt.updateAll?_append] at haverages
      obtain ⟨_, hmeasured, hrest⟩ := Option.bind_eq_some_iff.mp haverages
      obtain ⟨packet, next, hstep⟩ := h.exists_step hmeasured
      obtain ⟨rfl, hnext⟩ := h.of_step hstep
      cases (rtt_of_step hstep).symm.trans hmeasured
      obtain ⟨last, hlast, hend⟩ := ih hnext hrest
      refine ⟨last, run?_cons_eq_some_iff.mpr ⟨none, next, [], hstep, hlast, rfl⟩, ?_⟩
      rw [List.filterMap_eq_flatMap_toList, List.flatMap_cons, ← List.filterMap_eq_flatMap_toList,
        List.foldl_append]
      exact hend

theorem Tracks.of_run (h : Tracks state s) {steps : List Step}
    (hrun : s.run? steps = some (packets, last)) :
    packets = [] ∧ Tracks ((steps.filterMap Step.windowInput?).foldl Reno.follow state) last := by
  obtain ⟨_, hrun', hlast⟩ := h.run (rtt_of_run hrun)
  cases hrun.symm.trans hrun'
  exact ⟨rfl, hlast⟩

theorem Tracks.isSome_run? (h : Tracks state s) (steps : List Step) :
    (s.run? steps).isSome = (s.rtt.updateAll? (steps.filterMap Step.measured?)).isSome := by
  rw [Bool.eq_iff_iff, Option.isSome_iff_exists, Option.isSome_iff_exists]
  constructor
  · rintro ⟨⟨packets, last⟩, hrun⟩
    exact ⟨last.rtt, rtt_of_run hrun⟩
  · rintro ⟨averages, haverages⟩
    obtain ⟨last, hrun, _⟩ := h.run haverages
    exact ⟨([], last), hrun⟩

/-- Two Reno sessions with the same windows, the same phase and the same count of
segments. -/
structure SameWindows (s s' : Session) : Prop where
  cwnd : s.connection.cwnd = s'.connection.cwnd
  ssthresh : s.connection.ssthresh = s'.connection.ssthresh
  phase : s.connection.phase = s'.connection.phase
  counter : ∃ r, s.controller = .reno r ∧ s'.controller = .reno r

theorem Tracks.sameWindows {s' : Session} (h : Tracks state s) (h' : Tracks state s') :
    s.SameWindows s' := by
  obtain ⟨_, _, _, hconnection⟩ := h.connection
  obtain ⟨_, _, _, hconnection'⟩ := h'.connection
  refine ⟨?_, ?_, ?_, state.1, h.controller, h'.controller⟩ <;>
    rw [hconnection, hconnection'] <;> rfl

theorem Tracks.alpha? (h : Tracks state s) : s.controller.alpha? = none := by
  rw [h.controller]
  rfl

theorem Tracks.sameEcn {inputs : List WindowInput} (hstart : Tracks state s)
    (h : Tracks (inputs.foldl Reno.follow state) last) :
    last.connection.SameEcn s.connection := by
  obtain ⟨_, _, _, hconnection⟩ := h.connection
  obtain ⟨_, _, _, hconnection'⟩ := hstart.connection
  have hkept : (inputs.foldl Reno.follow state).2.SameEcn state.2 := by
    refine List.foldlRecOn inputs Reno.follow (motive := fun reached => reached.2.SameEcn state.2)
      ⟨rfl, rfl, rfl, rfl⟩ ?_
    intro reached hreached input _
    exact (Reno.sameEcn_follow reached input).trans hreached
  rw [hconnection, hconnection']
  exact ⟨hkept.ecnEnabled, hkept.ecnMode, hkept.ecnState, hkept.codepoint⟩

theorem tracks_of_create {settings : Settings} (hvalid : settings.validate = .ok ())
    (halgorithm : settings.algorithm = .reno) :
    ∃ start, create settings = .ok start ∧ start.rtt = .initial ∧
      Tracks (.initial, .initial settings.segmentSize settings.initialCwnd) start :=
  ⟨_, create_reno hvalid halgorithm, rfl, rfl, ⟨_, _, _, rfl⟩, rfl⟩

/-- The averages of all round trips that the steps measure; `none` if a time
computed on the way is no duration. -/
def averages? (steps : List Step) : Option SmoothedRtt :=
  SmoothedRtt.initial.updateAll? (steps.filterMap Step.measured?)

/-- Two Reno sessions that start with the same window and share all inputs of the
windows so far have the same windows, whatever else happens to either of them in
between. Neither hands out a packet, has an estimate or moves its ECN fields, and
nothing stops either of them but a time that is no duration. -/
theorem windows_independent {settings settings' : Settings} (hvalid : settings.validate = .ok ())
    (hvalid' : settings'.validate = .ok ()) (halgorithm : settings.algorithm = .reno)
    (halgorithm' : settings'.algorithm = .reno)
    (hsize : settings.segmentSize = settings'.segmentSize)
    (hsegments : settings.initialSegments = settings'.initialSegments) :
    ∃ start start', create settings = .ok start ∧ create settings' = .ok start' ∧
      (∀ steps, (start.run? steps).isSome = (averages? steps).isSome) ∧
      (∀ steps, (start'.run? steps).isSome = (averages? steps).isSome) ∧
      ∀ steps steps', steps.filterMap Step.windowInput? = steps'.filterMap Step.windowInput? →
        ∀ packets packets' reached reached', start.run? steps = some (packets, reached) →
          start'.run? steps' = some (packets', reached') →
          reached.SameWindows reached' ∧ packets = [] ∧ packets' = [] ∧
          reached.controller.alpha? = none ∧ reached'.controller.alpha? = none ∧
          reached.connection.SameEcn start.connection ∧
          reached'.connection.SameEcn start'.connection := by
  obtain ⟨start, hcreate, hrtt, hstart⟩ := tracks_of_create hvalid halgorithm
  obtain ⟨start', hcreate', hrtt', hstart'⟩ := tracks_of_create hvalid' halgorithm'
  have hcwnd : settings'.initialCwnd = settings.initialCwnd := by
    rw [Settings.initialCwnd, Settings.initialCwnd, hsize, hsegments]
  rw [← hsize, hcwnd] at hstart'
  refine ⟨start, start', hcreate, hcreate', ?_, ?_, ?_⟩
  · intro steps
    rw [hstart.isSome_run?, hrtt, averages?]
  · intro steps
    rw [hstart'.isSome_run?, hrtt', averages?]
  · intro steps steps' hinputs packets packets' reached reached' hrun hrun'
    obtain ⟨hpackets, hreached⟩ := hstart.of_run hrun
    obtain ⟨hpackets', hreached'⟩ := hstart'.of_run hrun'
    rw [← hinputs] at hreached'
    exact ⟨hreached.sameWindows hreached', hpackets, hpackets', hreached.alpha?,
      hreached'.alpha?, hstart.sameEcn hreached, hstart'.sameEcn hreached'⟩

def plainReno : Settings := { Settings.default with algorithm := .reno }

def tunedReno : Settings := { plainReno with gain := 0.5, initialAlpha := 0.25, useEct0 := true }

def markedWindows : List Step :=
  [.aceOption ⟨724⟩, .acknowledge 2 .threeMillis 1448, .signal .marked, .setPhase .cwr 9000,
    .signal .delayedAck, .poll, .signal .loss, .setPhase .normal 0, .setRcvNxt ⟨77⟩,
    .acknowledge 8 .zero 0, .poll]

def plainWindows : List Step :=
  [.acknowledge 2 .zero 9, .setPhase .cwr 9000, .signal .loss, .signal .unmarked,
    .setPhase .normal 0, .acknowledge 8 .threeMillis 7240]

theorem windows_independent_markedReduction :
    plainReno.validate = .ok () ∧ tunedReno.validate = .ok () ∧ plainReno.algorithm = .reno ∧
      tunedReno.algorithm = .reno ∧ plainReno.segmentSize = tunedReno.segmentSize ∧
      plainReno.initialSegments = tunedReno.initialSegments ∧
      ∃ start start' reached reached', create plainReno = .ok start ∧
        create tunedReno = .ok start' ∧
        markedWindows.filterMap Step.windowInput? = plainWindows.filterMap Step.windowInput? ∧
        start.run? markedWindows = some ([], reached) ∧
        start'.run? plainWindows = some ([], reached') ∧ reached.SameWindows reached' ∧
        reached.connection.cwnd = 10136 ∧
        reached.connection.rcvNxt ≠ reached'.connection.rcvNxt := by
  have hvalid : plainReno.validate = .ok () := by
    rw [Settings.validate_eq_ok_iff]
    decide +kernel
  have hvalid' : tunedReno.validate = .ok () := by
    rw [Settings.validate_eq_ok_iff]
    decide +kernel
  obtain ⟨start, start', hcreate, hcreate', _, _, h⟩ :=
    windows_independent hvalid hvalid' rfl rfl rfl rfl
  cases Except.ok.inj (hcreate.symm.trans (create_reno hvalid rfl))
  cases Except.ok.inj (hcreate'.symm.trans (create_reno hvalid' rfl))
  obtain ⟨hwindows, _⟩ := h markedWindows plainWindows rfl _ _ _ _ rfl rfl
  refine ⟨hvalid, hvalid', rfl, rfl, rfl, rfl, _, _, _, _, hcreate, hcreate', rfl, rfl, rfl,
    hwindows, ?_, ?_⟩
  · decide +kernel
  · decide +kernel

end Session

end ScalableCongestion
