import ScalableCongestion.Proofs.Session.Step

/-! Prague's side of a step: what an acknowledgement changes in the controller
and the connection, and how a session hands signals on. -/
namespace ScalableCongestion

theorem Phase.isRecovering_iff (phase : Phase) :
    phase.isRecovering = true ↔ phase = .recovery ∨ phase = .loss := by
  cases phase <;> decide

theorem Phase.isRecovering_eq_false_iff (phase : Phase) :
    phase.isRecovering = false ↔ phase ≠ .recovery ∧ phase ≠ .loss := by
  cases phase <;> decide

namespace Prague

def folded (p : Prague) (queue : ClassicQueue) (a : Acknowledgement) : Prague :=
  { p with
    queue
    estimator := p.estimator.advance a.ceBytes a.bytes
    lastEstimate := some ⟨a.bytes, a.ceBytes, (p.estimator.advance a.ceBytes a.bytes).alpha⟩ }

def grown (c : Connection) : Connection :=
  if c.phase = .normal then c.grow (growth c.segmentSize c.cwnd) else c

theorem grown_normal {c : Connection} (h : c.phase = .normal) :
    grown c = c.grow (growth c.segmentSize c.cwnd) := if_pos h

theorem acknowledge?_recovering {p : Prague} {c : Connection} {a : Acknowledgement}
    (h : c.phase.isRecovering = true) : p.acknowledge? c a = some (p, c) := by
  simp only [acknowledge?, h, ↓reduceIte]

theorem acknowledge?_taken {p : Prague} {c : Connection} {a : Acknowledgement}
    (h : c.phase.isRecovering = false) :
    p.acknowledge? c a =
      (p.queue.sample? a.rtt c.srtt).map fun (_, queue) => (p.folded queue a, grown c) := by
  simp only [acknowledge?, h]
  rfl

theorem acknowledge?_eq_some {p next : Prague} {c after : Connection} {a : Acknowledgement}
    (h : p.acknowledge? c a = some (next, after)) :
    (c.phase.isRecovering = true ∧ next = p ∧ after = c) ∨
      (c.phase.isRecovering = false ∧ ∃ change queue,
        p.queue.sample? a.rtt c.srtt = some (change, queue) ∧
          next = p.folded queue a ∧ after = grown c) := by
  cases hphase : c.phase.isRecovering with
  | true =>
      rw [acknowledge?_recovering hphase] at h
      cases Option.some.inj h
      exact .inl ⟨rfl, rfl, rfl⟩
  | false =>
      rw [acknowledge?_taken hphase] at h
      obtain ⟨⟨change, queue⟩, hsample, h⟩ := Option.map_eq_some_iff.mp h
      cases h
      exact .inr ⟨rfl, change, queue, hsample, rfl, rfl⟩

def lossWindow (p : Prague) (c : Connection) : UInt32 :=
  if c.phase = .cwr then lossTarget p.alpha c.cwnd else c.cwnd / 2

theorem lossWindow_normal (p : Prague) {c : Connection} (h : c.phase ≠ .cwr) :
    p.lossWindow c = c.cwnd / 2 := if_neg h

theorem lossWindow_reducing (p : Prague) {c : Connection} (h : c.phase = .cwr) :
    p.lossWindow c = lossTarget p.alpha c.cwnd := if_pos h

theorem lose_eq_reduceTo (p : Prague) (c : Connection) :
    p.lose c = c.reduceTo (p.lossWindow c) := by
  unfold lose lossWindow
  split <;> rfl

theorem lose_eq (p : Prague) (c : Connection) :
    ∃ window, p.lose c = { c with ssthresh := window, cwnd := window } :=
  ⟨_, p.lose_eq_reduceTo c⟩

theorem grown_eq (c : Connection) : ∃ cwnd, grown c = { c with cwnd } := by
  unfold grown
  split
  · exact ⟨_, rfl⟩
  · exact ⟨c.cwnd, rfl⟩

theorem echo_of_acknowledge {p next : Prague} {c after : Connection} {a : Acknowledgement}
    (h : p.acknowledge? c a = some (next, after)) : next.echo = p.echo := by
  rcases acknowledge?_eq_some h with ⟨_, rfl, _⟩ | ⟨_, _, _, _, rfl, _⟩ <;> rfl

theorem rcvNxt_of_acknowledge {p next : Prague} {c after : Connection} {a : Acknowledgement}
    (h : p.acknowledge? c a = some (next, after)) : after.rcvNxt = c.rcvNxt := by
  rcases acknowledge?_eq_some h with ⟨_, _, rfl⟩ | ⟨_, _, _, _, _, rfl⟩
  · rfl
  · obtain ⟨_, hgrown⟩ := grown_eq c
    rw [hgrown]

/-- Signals reach nothing in the controller but the receiver's half. -/
theorem signal_frame (p : Prague) (c : Connection) (event : Signal) :
    (p.signal c event).2.1 = { p with echo := (p.signal c event).2.1.echo } := by
  cases event with
  | marked =>
      simp only [signal]
      split <;> rfl
  | _ => rfl

end Prague

namespace Session

theorem signal_prague {s : Session} {p : Prague} (hp : s.controller = .prague p)
    (event : Signal) :
    s.signal event =
      { s with
        controller := .prague (p.signal s.connection event).2.1
        connection := (p.signal s.connection event).2.2
        outbox := s.outbox ++ (p.signal s.connection event).1.toList } := by
  simp only [signal, hp, Controller.signal]

end Session

theorem Controller.acknowledge?_prague {p : Prague} {c : Connection} {a : Acknowledgement}
    {controller : Controller} {connection : Connection}
    (h : (Controller.prague p).acknowledge? c a = some (controller, connection)) :
    ∃ next, controller = .prague next ∧ p.acknowledge? c a = some (next, connection) := by
  obtain ⟨⟨next, after⟩, hnext, hpair⟩ := Option.map_eq_some_iff.mp h
  cases hpair
  exact ⟨next, rfl, hnext⟩

theorem Controller.acknowledge?_prague_recovering {p : Prague} {c : Connection}
    {a : Acknowledgement} (h : c.phase.isRecovering = true) :
    (Controller.prague p).acknowledge? c a = some (.prague p, c) := by
  rw [acknowledge?, Prague.acknowledge?_recovering h]
  rfl

end ScalableCongestion
