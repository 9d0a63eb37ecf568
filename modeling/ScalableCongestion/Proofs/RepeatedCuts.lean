import Mathlib.Algebra.Group.Nat.Defs
import ScalableCongestion.Proofs.StagedReduction

/-! Cuts in a row. Without an acknowledgement or a change of phase in between,
each cut halves the window, and the floor applied to every one of them gives
what the floor applied once at the end would: both windows are the first window
divided by a power of two, or the floor. It does not matter which controller
cuts, nor whether a loss or a mark made it. -/
namespace ScalableCongestion

/-- An acknowledgement or a change of phase, which ends a row of cuts. -/
def Step.interrupts : Step → Bool
  | .acknowledge .. => true
  | .setPhase .. => true
  | _ => false

/-- Where `k` cuts in a row have taken a connection. Before the first one nothing
is known of the floor. -/
structure Connection.Halved (c : Connection) (k : Nat) (after : Connection) : Prop where
  segmentSize : after.segmentSize = c.segmentSize
  phase : after.phase = c.phase
  window : max c.minWindow.toNat after.cwnd.toNat =
    max c.minWindow.toNat (c.cwnd.toNat / 2 ^ k)
  landed : 0 < k → c.minWindow.toNat ≤ after.cwnd.toNat ∧ after.ssthresh = after.cwnd

namespace Connection.Halved

variable {c after : Connection} {k : Nat}

theorem start (c : Connection) : Halved c 0 c :=
  ⟨rfl, rfl, by rw [Nat.pow_zero, Nat.div_one], nofun⟩

theorem keep (h : Halved c k after) (ecnState : EcnState) (rcvNxt sndNxt : SequenceNumber) :
    Halved c k { after with ecnState, rcvNxt, sndNxt } :=
  ⟨h.segmentSize, h.phase, h.window, h.landed⟩

theorem halve (h : Halved c k after) : Halved c (k + 1) after.halve := by
  have hfloor : after.minWindow = c.minWindow := by rw [minWindow, minWindow, h.segmentSize]
  have hcwnd : after.halve.cwnd.toNat = max (after.cwnd.toNat / 2) c.minWindow.toNat := by
    rw [Connection.halve, reduceTo, toNat_max, UInt32.toNat_div, hfloor]
    rfl
  have hpower : c.cwnd.toNat / 2 ^ (k + 1) = c.cwnd.toNat / 2 ^ k / 2 := by
    rw [Nat.pow_succ, Nat.div_div_eq_div_mul]
  have hwindow := h.window
  refine ⟨h.segmentSize, h.phase, ?_, fun _ => ⟨?_, rfl⟩⟩
  · rw [hcwnd, hpower]
    omega
  · rw [hcwnd]
    exact Nat.le_max_right _ _

theorem closed_form (h : Halved c k after) (hk : 0 < k) :
    after.cwnd.toNat = max c.minWindow.toNat (c.cwnd.toNat / 2 ^ k) ∧
      after.ssthresh = after.cwnd := by
  obtain ⟨hfloor, hlanded⟩ := h.landed hk
  exact ⟨(Nat.max_eq_right hfloor).symm.trans h.window, hlanded⟩

end Connection.Halved

open Connection (Halved)

theorem Controller.cutTarget_eq_half {c : Connection} {event : Signal}
    (h : event = .loss → c.phase ≠ .cwr) (k : Controller) :
    k.cutTarget c event = c.cwnd / 2 := by
  cases k with
  | reno r => rfl
  | prague p =>
      cases event with
      | loss => exact p.lossWindow_normal (h rfl)
      | _ => rfl

namespace Session

variable {s s' middle next last : Session} {step : Step} {steps steps' : List Step}
  {packet : Option ControlPacket} {packets : List ControlPacket} {c : Connection} {k : Nat}

def cutCount (s : Session) (steps : List Step) : Nat :=
  s.total (fun s step _ => (s.cuts step).toNat) steps

/-- Steps that leave the windows to cuts which halve. -/
structure Uninterrupted (s : Session) (steps : List Step) : Prop where
  still : ∀ step ∈ steps, step.interrupts = false
  plain : .signal .loss ∈ steps → s.connection.phase ≠ .cwr

theorem halve_of_cut (hplain : step = .signal .loss → s.connection.phase ≠ .cwr)
    (hcut : s.cuts step = true) (hstep : s.step? step = some (packet, next)) :
    next.connection = s.connection.halve := by
  cases effect_of_step? hstep with
  | signal event =>
      have hloss : event = .loss → s.connection.phase ≠ .cwr := fun h => hplain (h ▸ rfl)
      have hreduced := Controller.signal_eq_reduceTo hcut s.connection
      rw [Controller.cutTarget_eq_half hloss] at hreduced
      exact hreduced
  | _ => cases hcut

theorem kept_of_uncut (hstill : step.interrupts = false) (hcut : s.cuts step = false)
    (hstep : s.step? step = some (packet, next)) :
    ∃ ecnState rcvNxt sndNxt, next.connection = { s.connection with ecnState, rcvNxt, sndNxt } := by
  cases effect_of_step? hstep with
  | acknowledge => cases hstill
  | setPhase => cases hstill
  | signal event =>
      obtain ⟨ecnState, hkept⟩ := Controller.signal_uncut hcut s.connection
      exact ⟨ecnState, _, _, hkept⟩
  | setRcvNxt seq => exact ⟨_, seq, _, rfl⟩
  | setSndNxt seq => exact ⟨_, _, seq, rfl⟩
  | _ => exact ⟨_, _, _, rfl⟩

theorem halved_of_step (h : Halved c k s.connection) (hstill : step.interrupts = false)
    (hplain : step = .signal .loss → c.phase ≠ .cwr)
    (hstep : s.step? step = some (packet, next)) :
    Halved c (k + (s.cuts step).toNat) next.connection := by
  cases hcut : s.cuts step with
  | true =>
      rw [halve_of_cut (fun hloss => h.phase ▸ hplain hloss) hcut hstep]
      exact h.halve
  | false =>
      obtain ⟨ecnState, rcvNxt, sndNxt, hkept⟩ := kept_of_uncut hstill hcut hstep
      rw [hkept]
      exact h.keep ecnState rcvNxt sndNxt

theorem exists_step_of_still (hstill : step.interrupts = false) :
    ∃ packet next, s.step? step = some (packet, next) := by
  cases step with
  | acknowledge => cases hstill
  | _ => exact ⟨_, _, rfl⟩

theorem halved_of_run (h : Halved c k s.connection)
    (hstill : ∀ step ∈ steps, step.interrupts = false)
    (hplain : .signal .loss ∈ steps → c.phase ≠ .cwr) :
    ∃ packets last, s.run? steps = some (packets, last) ∧
      Halved c (k + s.cutCount steps) last.connection := by
  induction steps generalizing s k with
  | nil => exact ⟨[], s, rfl, h⟩
  | cons step steps ih =>
      obtain ⟨hfirst, hrest⟩ := List.forall_mem_cons.mp hstill
      obtain ⟨packet, next, hstep⟩ := exists_step_of_still hfirst
      have hnext := halved_of_step h hfirst
        (fun hloss => hplain (hloss ▸ List.mem_cons_self)) hstep
      obtain ⟨packets, last, hrun, hlast⟩ := ih hnext hrest
        fun hloss => hplain (List.mem_cons_of_mem step hloss)
      refine ⟨_, last, run?_cons_eq_some_iff.mpr ⟨packet, next, packets, hstep, hrun, rfl⟩, ?_⟩
      rw [cutCount, total_cons hstep, ← Nat.add_assoc]
      exact hlast

theorem Uninterrupted.closed_form (h : s.Uninterrupted steps) (hk : 0 < s.cutCount steps) :
    ∃ packets last, s.run? steps = some (packets, last) ∧
      last.connection.cwnd.toNat =
        max s.connection.minWindow.toNat (s.connection.cwnd.toNat / 2 ^ s.cutCount steps) ∧
      last.connection.ssthresh = last.connection.cwnd := by
  obtain ⟨packets, last, hrun, hlast⟩ := halved_of_run (.start s.connection) h.still h.plain
  rw [Nat.zero_add] at hlast
  exact ⟨packets, last, hrun, hlast.closed_form hk⟩

/-- Cuts in a row have a closed form: after `k` of them, at least one, both
windows are the first window divided by `2 ^ k`, or the floor if that is more. So
any two sessions that cut the same window equally often reach the same window,
whichever controllers they have and whatever else happens in between. -/
theorem cuts_closed_form :
    (∀ (s : Session) steps, s.Uninterrupted steps → 0 < s.cutCount steps →
      ∃ packets last, s.run? steps = some (packets, last) ∧
        last.connection.cwnd.toNat =
          max s.connection.minWindow.toNat (s.connection.cwnd.toNat / 2 ^ s.cutCount steps) ∧
        last.connection.ssthresh = last.connection.cwnd) ∧
    ∀ (s s' : Session) steps steps', s.Uninterrupted steps → s'.Uninterrupted steps' →
      s.connection.cwnd = s'.connection.cwnd →
      s.connection.segmentSize = s'.connection.segmentSize →
      s.cutCount steps = s'.cutCount steps' → 0 < s.cutCount steps →
      ∃ packets last packets' last', s.run? steps = some (packets, last) ∧
        s'.run? steps' = some (packets', last') ∧
        last.connection.cwnd = last'.connection.cwnd ∧
        last.connection.ssthresh = last'.connection.ssthresh := by
  refine ⟨fun s steps h hk => h.closed_form hk, ?_⟩
  intro s s' steps steps' h h' hcwnd hsize hcount hk
  obtain ⟨packets, last, hrun, hlast, hssthresh⟩ := h.closed_form hk
  obtain ⟨packets', last', hrun', hlast', hssthresh'⟩ := h'.closed_form (hcount ▸ hk)
  have hsame : last.connection.cwnd = last'.connection.cwnd := by
    apply UInt32.toNat_inj.mp
    rw [hlast, hlast', hcwnd, hcount, Connection.minWindow, Connection.minWindow, hsize]
  exact ⟨packets, last, packets', last', hrun, hrun', hsame, by rw [hssthresh, hssthresh', hsame]⟩

def suspecting : Session :=
  fresh (.prague { Prague.initial with queue := ⟨some .threeMillis, true⟩ }) (.initial 1448 99999)

def marksAndLosses : List Step :=
  [.signal .loss, .signal .delayedAck, .signal .marked, .aceOption ⟨7⟩, .signal .unmarked, .poll,
    .signal .marked, .signal .cwrComplete, .signal .loss, .setRcvNxt ⟨1000⟩]

def fourLosses : List Step := [.signal .loss, .signal .loss, .signal .loss, .signal .loss]

/-- Every one of the four halvings rounds down. -/
theorem cuts_closed_form_marksAndLosses :
    ∃ plain packets last packets' last', plain = fresh (.reno .initial) (.initial 1448 99999) ∧
      suspecting.Uninterrupted marksAndLosses ∧ plain.Uninterrupted fourLosses ∧
      suspecting.cutCount marksAndLosses = 4 ∧ plain.cutCount fourLosses = 4 ∧
      suspecting.run? marksAndLosses = some (packets, last) ∧
      plain.run? fourLosses = some (packets', last') ∧
      last.connection.cwnd.toNat = max 2896 (99999 / 2 ^ 4) ∧
      last.connection.ssthresh = last.connection.cwnd ∧
      last.connection.cwnd = last'.connection.cwnd := by
  obtain ⟨hclosed, hsame⟩ := cuts_closed_form
  have hmixed : suspecting.Uninterrupted marksAndLosses := ⟨by decide, fun _ => nofun⟩
  have hplain : (fresh (.reno .initial) (.initial 1448 99999)).Uninterrupted fourLosses :=
    ⟨by decide, fun _ => nofun⟩
  obtain ⟨packets, last, hrun, hcwnd, hssthresh⟩ :=
    hclosed suspecting marksAndLosses hmixed (by decide +kernel)
  obtain ⟨_, _, packets', last', hrun', hlast', hwindow, _⟩ :=
    hsame suspecting _ marksAndLosses fourLosses hmixed hplain rfl rfl rfl (by decide +kernel)
  cases hrun.symm.trans hrun'
  exact ⟨_, packets, last, packets', last', rfl, hmixed, hplain, rfl, rfl, hrun, hlast', hcwnd,
    hssthresh, hwindow⟩

end Session

end ScalableCongestion
