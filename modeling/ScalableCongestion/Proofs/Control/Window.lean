import ScalableCongestion.Proofs.Control.Prague
import ScalableCongestion.Proofs.Control.Reno

/-! What either controller does to the windows of its connection. An
acknowledgement never shrinks the window and touches nothing else; a signal
either cuts both windows to one target or leaves them alone. -/
namespace ScalableCongestion

/-- Two segments in bytes, or the largest window where that is less. -/
def windowFloor (segmentSize : UInt32) : Nat := min (2 * segmentSize.toNat) 4294967295

theorem Connection.toNat_minWindow (c : Connection) :
    c.minWindow.toNat = windowFloor c.segmentSize := by
  rw [minWindow, toNat_satMul, Nat.mul_comm]
  rfl

theorem Connection.windowFloor_le_reduceTo (c : Connection) (target : UInt32) :
    windowFloor c.segmentSize ≤ (c.reduceTo target).cwnd.toNat := by
  rw [reduceTo, toNat_max, toNat_minWindow]
  exact Nat.le_max_right _ _

theorem Prague.cwnd_le_grown (c : Connection) : c.cwnd.toNat ≤ (grown c).cwnd.toNat := by
  unfold grown
  split
  · have hcwnd := c.cwnd.toNat_lt
    rw [Connection.grow, toNat_satAdd]
    omega
  · exact Nat.le_refl _

theorem Reno.cwnd_le_acknowledge (r : Reno) (c : Connection) (acked : UInt32) :
    c.cwnd.toNat ≤ (r.acknowledge c acked).2.cwnd.toNat := by
  cases hgrows : growsIn c.phase with
  | true => exact (acknowledge_paid hgrows r acked).1
  | false =>
      have hsame := acknowledge_frozen hgrows r acked
      exact Nat.le_of_eq (congrArg (·.2.cwnd.toNat) hsame.symm)

namespace Controller

theorem acknowledge?_grows {k next : Controller} {c after : Connection} {a : Acknowledgement}
    (h : k.acknowledge? c a = some (next, after)) :
    ∃ cwnd, after = { c with cwnd } ∧ c.cwnd.toNat ≤ cwnd.toNat := by
  cases k with
  | reno r =>
      obtain ⟨_, rfl⟩ := acknowledge?_reno h
      exact ⟨_, Reno.acknowledge_frame r c a.segments, r.cwnd_le_acknowledge c a.segments⟩
  | prague p =>
      obtain ⟨p', _, hacknowledge⟩ := acknowledge?_prague h
      rcases Prague.acknowledge?_eq_some hacknowledge with ⟨_, _, rfl⟩ | ⟨_, _, _, _, _, rfl⟩
      · exact ⟨_, rfl, Nat.le_refl _⟩
      · obtain ⟨cwnd, hgrown⟩ := Prague.grown_eq c
        have hup := Prague.cwnd_le_grown c
        rw [hgrown] at hup
        exact ⟨cwnd, hgrown, hup⟩

/-- Whether a signal makes the controller cut the windows. Marks count only while
a classic queue is suspected, which Reno never does. -/
def cutsOn (k : Controller) : Signal → Bool
  | .loss => true
  | .marked => k.inFallback
  | _ => false

def cutTarget (k : Controller) (c : Connection) (event : Signal) : UInt32 :=
  match k, event with
  | prague p, .loss => p.lossWindow c
  | _, _ => c.cwnd / 2

theorem signal_eq_reduceTo {k : Controller} {event : Signal} (h : k.cutsOn event = true)
    (c : Connection) : (k.signal c event).2.2 = c.reduceTo (k.cutTarget c event) := by
  cases event with
  | loss =>
      cases k with
      | reno r => rfl
      | prague p => exact p.lose_eq_reduceTo c
  | marked =>
      cases k with
      | reno r => cases h
      | prague p =>
          have hfallback : p.inFallback = true := h
          simp only [signal, Prague.signal, hfallback, ↓reduceIte]
          rfl
  | _ => cases h

theorem signal_cut {k : Controller} {event : Signal} (h : k.cutsOn event = true)
    (c : Connection) : ∃ target, (k.signal c event).2.2 = c.reduceTo target :=
  ⟨_, signal_eq_reduceTo h c⟩

theorem signal_uncut {k : Controller} {event : Signal} (h : k.cutsOn event = false)
    (c : Connection) : ∃ ecnState, (k.signal c event).2.2 = { c with ecnState } := by
  cases k with
  | reno r =>
      cases event with
      | loss => cases h
      | _ => exact ⟨_, rfl⟩
  | prague p =>
      cases event with
      | loss => cases h
      | marked =>
          have hfallback : p.inFallback = false := h
          simp only [signal, Prague.signal, hfallback, Bool.false_eq_true, ↓reduceIte]
          exact ⟨_, rfl⟩
      | _ => exact ⟨_, rfl⟩

theorem signal_connection (k : Controller) (c : Connection) (event : Signal) :
    ∃ ssthresh cwnd ecnState,
      (k.signal c event).2.2 = { c with ssthresh, cwnd, ecnState } := by
  cases hcuts : k.cutsOn event with
  | true =>
      obtain ⟨target, hcut⟩ := signal_cut hcuts c
      exact ⟨_, _, c.ecnState, hcut⟩
  | false =>
      obtain ⟨ecnState, hkept⟩ := signal_uncut hcuts c
      exact ⟨c.ssthresh, c.cwnd, ecnState, hkept⟩

end Controller

end ScalableCongestion
