import ScalableCongestion.Session

/-! What each step of a session does, said once: later proofs take a step apart
with these equations and do not open the operations again. -/
namespace ScalableCongestion

namespace Connection

def timed (c : Connection) (srtt : Duration) : Connection := { c with srtt }

@[simp] theorem timed_cwnd (c : Connection) (srtt : Duration) :
    (c.timed srtt).cwnd = c.cwnd := rfl

@[simp] theorem timed_segmentSize (c : Connection) (srtt : Duration) :
    (c.timed srtt).segmentSize = c.segmentSize := rfl

@[simp] theorem timed_phase (c : Connection) (srtt : Duration) :
    (c.timed srtt).phase = c.phase := rfl

/-- The connection after a change of phase. Entering a reduction stages the
threshold; leaving it for normal operation lands the window there. -/
def enter (c : Connection) (phase : Phase) (bytesInFlight : UInt32) : Connection :=
  if c.phase = phase then c
  else
    let ssthresh := if phase = .cwr then c.stagedThreshold bytesInFlight else c.ssthresh
    { c with
      ssthresh
      phase
      cwnd := if c.phase = .cwr ∧ phase = .normal then max ssthresh c.minWindow else c.cwnd }

theorem rcvNxt_enter (c : Connection) (phase : Phase) (bytesInFlight : UInt32) :
    (c.enter phase bytesInFlight).rcvNxt = c.rcvNxt := by
  unfold enter
  split <;> rfl

theorem segmentSize_enter (c : Connection) (phase : Phase) (bytesInFlight : UInt32) :
    (c.enter phase bytesInFlight).segmentSize = c.segmentSize := by
  unfold enter
  split <;> rfl

theorem srtt_enter (c : Connection) (phase : Phase) (bytesInFlight : UInt32) :
    (c.enter phase bytesInFlight).srtt = c.srtt := by
  unfold enter
  split <;> rfl

@[simp] theorem phase_enter (c : Connection) (phase : Phase) (bytesInFlight : UInt32) :
    (c.enter phase bytesInFlight).phase = phase := by
  unfold enter
  split
  · assumption
  · rfl

theorem ssthresh_enter (c : Connection) (phase : Phase) (bytesInFlight : UInt32) :
    (c.enter phase bytesInFlight).ssthresh =
      if phase = .cwr ∧ c.phase ≠ .cwr then c.stagedThreshold bytesInFlight else c.ssthresh := by
  unfold enter
  by_cases hsame : c.phase = phase
  · simp only [hsame, ↓reduceIte, ne_eq, and_not_self]
  · by_cases hcwr : phase = .cwr
    · subst hcwr
      simp only [hsame, ↓reduceIte, ne_eq, not_false_eq_true, and_self]
    · simp only [hsame, hcwr, ↓reduceIte, false_and]

theorem cwnd_enter (c : Connection) (phase : Phase) (bytesInFlight : UInt32) :
    (c.enter phase bytesInFlight).cwnd =
      if c.phase = .cwr ∧ phase = .normal then max c.ssthresh c.minWindow else c.cwnd := by
  unfold enter
  by_cases hsame : c.phase = phase
  · have hstays : ¬(c.phase = .cwr ∧ phase = .normal) := by
      rintro ⟨hcwr, rfl⟩
      exact absurd (hcwr.symm.trans hsame) nofun
    rw [if_pos hsame, if_neg hstays]
  · by_cases hleave : c.phase = .cwr ∧ phase = .normal
    · obtain ⟨hcwr, rfl⟩ := hleave
      simp only [hcwr, reduceCtorEq, ↓reduceIte, and_self]
    · simp only [hsame, hleave, ↓reduceIte]

end Connection

namespace Session

@[simp] theorem signal_cwrComplete (s : Session) : s.signal .cwrComplete = s := by
  cases s with
  | mk connection controller mailbox rtt outbox =>
      cases controller <;>
        simp [signal, Controller.signal, Reno.signal, Prague.signal]

theorem setPhase_eq (s : Session) (phase : Phase) (bytesInFlight : UInt32) :
    s.setPhase phase bytesInFlight =
      { s with connection := s.connection.enter phase bytesInFlight } := by
  unfold setPhase Connection.enter
  by_cases hsame : s.connection.phase = phase
  · simp only [hsame, ↓reduceIte]
  · simp only [hsame, ↓reduceIte]
    by_cases hleave : s.connection.phase = .cwr ∧ phase = .normal
    · simp only [hleave, and_self, ↓reduceIte, signal_cwrComplete]
      rfl
    · simp only [hleave, ↓reduceIte]
      rfl

def timing? (s : Session) (rtt : Duration) : Option (Duration × SmoothedRtt) :=
  if rtt.isZero then some (s.connection.srtt, s.rtt) else s.rtt.update? rtt

theorem measure?_eq (s : Session) (rtt : Duration) :
    s.measure? rtt = (s.timing? rtt).map fun (srtt, averages) =>
      { s with rtt := averages, connection := s.connection.timed srtt } := by
  unfold measure? timing?
  split <;> rfl

theorem acknowledge?_eq (s : Session) (segments : UInt32) (rtt : Duration) (bytes : UInt32) :
    s.acknowledge? segments rtt bytes =
      (s.timing? rtt).bind fun (srtt, averages) =>
        (s.controller.acknowledge? (s.connection.timed srtt)
          ⟨segments, rtt, s.mailbox.pending, bytes⟩).map fun (controller, connection) =>
            ⟨connection, controller, .empty, averages, s.outbox⟩ := by
  unfold acknowledge?
  rw [measure?_eq]
  cases s.timing? rtt with
  | none => rfl
  | some timed =>
      obtain ⟨srtt, averages⟩ := timed
      simp only [Option.bind_some, Option.bind_eq_bind, Option.map_eq_bind]
      rfl

theorem measure?_eq_some {s measured : Session} {rtt : Duration}
    (h : s.measure? rtt = some measured) :
    ∃ averages srtt, measured =
      { s with rtt := averages, connection := s.connection.timed srtt } := by
  rw [measure?_eq] at h
  obtain ⟨⟨srtt, averages⟩, _, rfl⟩ := Option.map_eq_some_iff.mp h
  exact ⟨averages, srtt, rfl⟩

/-- All that a step can do to a session, and the packet that it hands out. -/
inductive Effect (s : Session) : Step → Option ControlPacket → Session → Prop where
  | deposit (o : AceOption) : Effect s (.aceOption o) none { s with mailbox := ⟨o.ceBytes⟩ }
  | depositFound (bytes : List UInt8) (o : AceOption) (found : findAce? bytes = some o) :
    Effect s (.segmentOptions bytes) none { s with mailbox := ⟨o.ceBytes⟩ }
  | nothingFound (bytes : List UInt8) (found : findAce? bytes = none) :
    Effect s (.segmentOptions bytes) none s
  | acknowledge (segments : UInt32) (rtt : Duration) (bytes : UInt32) (averages : SmoothedRtt)
    (srtt : Duration) (controller : Controller) (connection : Connection)
    (measured : s.measure? rtt =
      some { s with rtt := averages, connection := s.connection.timed srtt })
    (controlled : s.controller.acknowledge? (s.connection.timed srtt)
      ⟨segments, rtt, s.mailbox.pending, bytes⟩ = some (controller, connection)) :
    Effect s (.acknowledge segments rtt bytes) none
      ⟨connection, controller, .empty, averages, s.outbox⟩
  | setPhase (phase : Phase) (bytesInFlight : UInt32) :
    Effect s (.setPhase phase bytesInFlight) none
      { s with connection := s.connection.enter phase bytesInFlight }
  | signal (event : Signal) : Effect s (.signal event) none (s.signal event)
  | pollNothing (queue : s.outbox = []) : Effect s .poll none s
  | poll (packet : ControlPacket) (rest : List ControlPacket) (queue : s.outbox = packet :: rest) :
    Effect s .poll (some packet) { s with outbox := rest }
  | setRcvNxt (seq : SequenceNumber) : Effect s (.setRcvNxt seq) none (s.setRcvNxt seq)
  | setSndNxt (seq : SequenceNumber) : Effect s (.setSndNxt seq) none (s.setSndNxt seq)

theorem effect_of_acknowledge? {s next : Session} {segments bytes : UInt32} {rtt : Duration}
    (h : s.acknowledge? segments rtt bytes = some next) :
    Effect s (.acknowledge segments rtt bytes) none next := by
  obtain ⟨measured, hmeasure, h⟩ := Option.bind_eq_some_iff.mp h
  obtain ⟨averages, srtt, rfl⟩ := measure?_eq_some hmeasure
  obtain ⟨⟨controller, connection⟩, hcontrol, h⟩ := Option.bind_eq_some_iff.mp h
  cases Option.some.inj h
  exact .acknowledge segments rtt bytes averages srtt controller connection hmeasure hcontrol

theorem effect_of_step? {s next : Session} {step : Step} {packet : Option ControlPacket}
    (h : s.step? step = some (packet, next)) : Effect s step packet next := by
  cases step with
  | aceOption o =>
      cases Option.some.inj h
      exact .deposit o
  | segmentOptions bytes =>
      cases Option.some.inj h
      unfold receiveOptions
      split
      · next hfound => exact .nothingFound bytes hfound
      · next o hfound => exact .depositFound bytes o hfound
  | acknowledge segments rtt bytes =>
      obtain ⟨_, hnext, hpair⟩ := Option.map_eq_some_iff.mp h
      cases hpair
      exact effect_of_acknowledge? hnext
  | setPhase phase bytesInFlight =>
      cases Option.some.inj h
      rw [setPhase_eq]
      exact .setPhase phase bytesInFlight
  | signal event =>
      cases Option.some.inj h
      exact .signal event
  | poll =>
      have hpoll := Option.some.inj h
      unfold Session.poll at hpoll
      split at hpoll
      · next hqueue =>
          cases hpoll
          exact .pollNothing hqueue
      · next first rest hqueue =>
          cases hpoll
          exact .poll first rest hqueue
  | setRcvNxt seq =>
      cases Option.some.inj h
      exact .setRcvNxt seq
  | setSndNxt seq =>
      cases Option.some.inj h
      exact .setSndNxt seq

end Session

end ScalableCongestion
