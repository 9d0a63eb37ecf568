import ScalableCongestion.Proofs.Control.Reno
import ScalableCongestion.Proofs.Session.Run
import ScalableCongestion.Proofs.Session.Start

/-! Acknowledged segments pay for the window once. Over every run of a Reno
session, what acknowledgements added to the window and what the counter still
holds are covered by the segments that were acknowledged while the window could
grow. The counter is the potential of the argument. -/
namespace ScalableCongestion

theorem Reno.signal_eq (r : Reno) (c : Connection) (event : Signal) :
    ∃ counter cwnd ssthresh, counter.toNat ≤ r.counter.toNat ∧
      r.signal c event = (⟨counter⟩, { c with cwnd, ssthresh }) := by
  cases event with
  | loss => exact ⟨0, _, _, Nat.zero_le _, rfl⟩
  | _ => exact ⟨r.counter, c.cwnd, c.ssthresh, Nat.le_refl _, rfl⟩

namespace Session

def ackGrowth (s : Session) (step : Step) (next : Session) : Nat :=
  match step with
  | .acknowledge .. => next.connection.cwnd.toNat - s.connection.cwnd.toNat
  | _ => 0

/-- The segments that an acknowledgement counts while the window may grow. -/
def ackedSegments (s : Session) (step : Step) (_ : Session) : Nat :=
  match step with
  | .acknowledge segments _ _ =>
    if s.connection.phase = .normal ∨ s.connection.phase = .disorder then segments.toNat else 0
  | _ => 0

def pendingSegments (s : Session) : Nat :=
  match s.controller with
  | .reno r => r.counter.toNat
  | .prague _ => 0

structure RenoWith (size : UInt32) (s : Session) : Prop where
  reno : ∃ r, s.controller = .reno r
  segmentSize : s.connection.segmentSize = size

theorem pendingSegments_reno {s : Session} {r : Reno} (hr : s.controller = .reno r) :
    s.pendingSegments = r.counter.toNat := by
  rw [pendingSegments, hr]

theorem acknowledge_pays {s : Session} (hsize : 0 < s.connection.segmentSize.toNat) (r : Reno)
    (segments : UInt32) (srtt : Duration) :
    (r.acknowledge (s.connection.timed srtt) segments).2.cwnd.toNat - s.connection.cwnd.toNat +
        s.connection.segmentSize.toNat *
          (r.acknowledge (s.connection.timed srtt) segments).1.counter.toNat ≤
      s.connection.segmentSize.toNat *
          (if s.connection.phase = .normal ∨ s.connection.phase = .disorder then segments.toNat
            else 0) +
        s.connection.segmentSize.toNat * r.counter.toNat := by
  have hunit : (Reno.unit (s.connection.timed srtt)).toNat =
      s.connection.segmentSize.toNat := by
    rw [Reno.toNat_unit, Connection.timed_segmentSize]
    omega
  cases hgrows : Reno.growsIn (s.connection.timed srtt).phase with
  | true =>
      obtain ⟨hup, hpaid⟩ := Reno.acknowledge_paid hgrows r segments
      rw [Connection.timed_phase, Reno.growsIn_eq, decide_eq_true_eq] at hgrows
      rw [Connection.timed_cwnd] at hup
      rw [hunit, Nat.mul_add, Connection.timed_cwnd] at hpaid
      rw [if_pos hgrows]
      omega
  | false =>
      rw [Reno.acknowledge_frozen hgrows, Connection.timed_cwnd, Nat.sub_self, Nat.zero_add]
      exact Nat.le_add_left _ _

/-- Every step keeps a Reno session one, and pays for what it adds. -/
theorem step_pays {size : UInt32} (hsize : 0 < size.toNat) {s next : Session} {step : Step}
    {packet : Option ControlPacket} (h : RenoWith size s)
    (hstep : s.step? step = some (packet, next)) :
    RenoWith size next ∧
      s.ackGrowth step next + size.toNat * next.pendingSegments ≤
        size.toNat * s.ackedSegments step next + size.toNat * s.pendingSegments := by
  obtain ⟨r, hr⟩ := h.reno
  have free {step : Step} {next : Session} (hgrowth : s.ackGrowth step next = 0)
      (hnext : RenoWith size next) (hpending : next.pendingSegments ≤ s.pendingSegments) :
      RenoWith size next ∧
        s.ackGrowth step next + size.toNat * next.pendingSegments ≤
          size.toNat * s.ackedSegments step next + size.toNat * s.pendingSegments := by
    have hmul := Nat.mul_le_mul_left size.toNat hpending
    exact ⟨hnext, by omega⟩
  cases effect_of_step? hstep with
  | deposit _ => exact free rfl ⟨h.reno, h.segmentSize⟩ (Nat.le_refl _)
  | depositFound _ _ _ => exact free rfl ⟨h.reno, h.segmentSize⟩ (Nat.le_refl _)
  | nothingFound _ _ => exact free rfl h (Nat.le_refl _)
  | acknowledge segments _ _ averages srtt controller connection _ controlled =>
      rw [hr] at controlled
      obtain ⟨rfl, rfl⟩ := Controller.acknowledge?_reno controlled
      refine ⟨⟨⟨_, rfl⟩, ?_⟩, ?_⟩
      · rw [Reno.acknowledge_frame]
        exact h.segmentSize
      · have hpays := acknowledge_pays (h.segmentSize ▸ hsize) r segments srtt
        rw [h.segmentSize] at hpays
        rw [pendingSegments_reno hr, pendingSegments_reno rfl]
        exact hpays
  | setPhase phase bytesInFlight =>
      refine free rfl ⟨h.reno, ?_⟩ (Nat.le_refl _)
      exact (s.connection.segmentSize_enter phase bytesInFlight).trans h.segmentSize
  | signal event =>
      obtain ⟨counter, cwnd, ssthresh, hcounter, hsignal⟩ := r.signal_eq s.connection event
      rw [signal_reno hr, hsignal]
      refine free rfl ⟨⟨_, rfl⟩, h.segmentSize⟩ ?_
      rw [pendingSegments_reno hr]
      exact hcounter
  | pollNothing _ => exact free rfl h (Nat.le_refl _)
  | poll _ _ _ => exact free rfl ⟨h.reno, h.segmentSize⟩ (Nat.le_refl _)
  | setRcvNxt _ => exact free rfl ⟨h.reno, h.segmentSize⟩ (Nat.le_refl _)
  | setSndNxt _ => exact free rfl ⟨h.reno, h.segmentSize⟩ (Nat.le_refl _)

/-- Acknowledged segments are never spent twice. -/
theorem ackGrowth_le_ackedSegments {settings : Settings} (hvalid : settings.validate = .ok ())
    (halgorithm : settings.algorithm = .reno) :
    ∃ start, create settings = .ok start ∧
      ∀ steps packets reached, start.run? steps = some (packets, reached) →
        ∃ r, reached.controller = .reno r ∧
          start.total ackGrowth steps + settings.segmentSize.toNat * r.counter.toNat ≤
            settings.segmentSize.toNat * start.total ackedSegments steps ∧
          start.total ackGrowth steps ≤
            settings.segmentSize.toNat * start.total ackedSegments steps := by
  obtain ⟨_, _, hsegment, _⟩ := (settings.validate_eq_ok_iff).mp hvalid
  have hsize : 0 < settings.segmentSize.toNat := by
    apply Nat.pos_of_ne_zero
    intro hzero
    exact hsegment (UInt32.toNat_inj.mp hzero)
  refine ⟨_, create_reno hvalid halgorithm, ?_⟩
  intro steps packets reached hrun
  have hpays (s : Session) (step : Step) (packet : Option ControlPacket) (next : Session)
      (h : RenoWith settings.segmentSize s) (hstep : s.step? step = some (packet, next)) :=
    step_pays hsize h hstep
  have hkeeps (s : Session) (step : Step) (packet : Option ControlPacket) (next : Session)
      (h : RenoWith settings.segmentSize s) (hstep : s.step? step = some (packet, next)) :=
    (hpays s step packet next h hstep).1
  have hstart : RenoWith settings.segmentSize (fresh (.reno .initial)
      (.initial settings.segmentSize settings.initialCwnd)) := ⟨⟨_, rfl⟩, rfl⟩
  obtain ⟨r, hr⟩ := (run?_keeps hkeeps hrun hstart).reno
  have hpaid := total_add_potential_le
    (fun s => settings.segmentSize.toNat * s.pendingSegments) hkeeps
    (fun s step packet next h hstep => (hpays s step packet next h hstep).2) hstart hrun
  rw [total_mul, pendingSegments_reno hr, pendingSegments_reno rfl] at hpaid
  change _ ≤ _ + settings.segmentSize.toNat * 0 at hpaid
  exact ⟨r, hr, by omega, by omega⟩

def smallReno : Settings :=
  { Settings.default with algorithm := .reno, segmentSize := 1000, initialSegments := 4 }

def growthAfterLoss : List Step :=
  [.signal .loss, .acknowledge 5 .zero 5000, .setPhase .recovery 4000,
    .acknowledge 7 .zero 7000, .poll]

theorem ackGrowth_le_ackedSegments_growthAfterLoss :
    smallReno.validate = .ok () ∧ smallReno.algorithm = .reno ∧
      ∃ start reached r, create smallReno = .ok start ∧
        start.run? growthAfterLoss = some ([], reached) ∧ reached.controller = .reno r ∧
        start.total ackGrowth growthAfterLoss = 2000 ∧ r.counter = 1 ∧
        start.total ackedSegments growthAfterLoss = 5 ∧
        start.total ackGrowth growthAfterLoss + smallReno.segmentSize.toNat * r.counter.toNat ≤
          smallReno.segmentSize.toNat * start.total ackedSegments growthAfterLoss := by
  have hvalid : smallReno.validate = .ok () := by
    rw [Settings.validate_eq_ok_iff]
    decide +kernel
  obtain ⟨start, hcreate, h⟩ := ackGrowth_le_ackedSegments hvalid rfl
  have hstart := Except.ok.inj (hcreate.symm.trans (create_reno hvalid rfl))
  subst hstart
  obtain ⟨r, hr, hpaid, _⟩ := h growthAfterLoss _ _ rfl
  cases Controller.reno.inj hr
  refine ⟨hvalid, rfl, _, _, _, hcreate, rfl, rfl, ?_, ?_, ?_, hpaid⟩
  · decide +kernel
  · decide +kernel
  · decide +kernel

end Session

end ScalableCongestion
