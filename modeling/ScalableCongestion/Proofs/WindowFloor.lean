import ScalableCongestion.Proofs.Control.Window
import ScalableCongestion.Proofs.Session.Run
import ScalableCongestion.Proofs.Session.Start

/-! The floor under the windows. The threshold never falls below two segments.
The window may start at a single one, but each reduction lands it on the
threshold, and from the first reduction on it stays above the floor too. -/
namespace ScalableCongestion

/-- The windows of a connection with segments of `size` bytes stand above the
floor; `low` is what is known of the congestion window. -/
structure Connection.AboveFloor (size : UInt32) (low : Nat) (c : Connection) : Prop where
  segmentSize : c.segmentSize = size
  ssthresh : windowFloor size ≤ c.ssthresh.toNat
  cwnd : low ≤ c.cwnd.toNat

namespace Connection.AboveFloor

variable {size : UInt32} {low : Nat} {c : Connection}

theorem lower {low' : Nat} (h : AboveFloor size low c) (hle : low' ≤ low) :
    AboveFloor size low' c :=
  ⟨h.segmentSize, h.ssthresh, Nat.le_trans hle h.cwnd⟩

theorem grow {cwnd : UInt32} (h : AboveFloor size low c) (hup : c.cwnd.toNat ≤ cwnd.toNat) :
    AboveFloor size low { c with cwnd } :=
  ⟨h.segmentSize, h.ssthresh, Nat.le_trans h.cwnd hup⟩

theorem reduceTo (h : AboveFloor size low c) (target : UInt32) :
    AboveFloor size (windowFloor size) (c.reduceTo target) := by
  have hfloor := c.windowFloor_le_reduceTo target
  rw [h.segmentSize] at hfloor
  exact ⟨h.segmentSize, hfloor, hfloor⟩

theorem ssthresh_enter (h : AboveFloor size low c) (phase : Phase) (bytesInFlight : UInt32) :
    windowFloor size ≤ (c.enter phase bytesInFlight).ssthresh.toNat := by
  rw [Connection.ssthresh_enter]
  split
  · rw [stagedThreshold, toNat_max, toNat_minWindow, h.segmentSize]
    exact Nat.le_max_left _ _
  · exact h.ssthresh

theorem enter_normal (h : AboveFloor size low c) (hphase : c.phase = .cwr)
    (bytesInFlight : UInt32) :
    AboveFloor size (windowFloor size) (c.enter .normal bytesInFlight) ∧
      (c.enter .normal bytesInFlight).cwnd = (c.enter .normal bytesInFlight).ssthresh := by
  have hssthresh := h.ssthresh_enter .normal bytesInFlight
  have hcwnd : (c.enter .normal bytesInFlight).cwnd =
      (c.enter .normal bytesInFlight).ssthresh := by
    rw [cwnd_enter, Connection.ssthresh_enter, if_pos ⟨hphase, rfl⟩, if_neg (by simp)]
    apply UInt32.toNat_inj.mp
    rw [toNat_max, toNat_minWindow, h.segmentSize]
    exact Nat.max_eq_left h.ssthresh
  have hsize := (c.segmentSize_enter .normal bytesInFlight).trans h.segmentSize
  exact ⟨⟨hsize, hssthresh, hcwnd ▸ hssthresh⟩, hcwnd⟩

theorem enter (h : AboveFloor size low c) (hlow : low ≤ windowFloor size) (phase : Phase)
    (bytesInFlight : UInt32) : AboveFloor size low (c.enter phase bytesInFlight) := by
  by_cases hleave : c.phase = .cwr ∧ phase = .normal
  · obtain ⟨hphase, rfl⟩ := hleave
    exact (h.enter_normal hphase bytesInFlight).1.lower hlow
  · refine ⟨?_, h.ssthresh_enter phase bytesInFlight, ?_⟩
    · exact (c.segmentSize_enter phase bytesInFlight).trans h.segmentSize
    · rw [cwnd_enter, if_neg hleave]
      exact h.cwnd

end Connection.AboveFloor

namespace Session

open Connection (AboveFloor)

variable {size : UInt32} {low : Nat} {s next : Session} {step : Step}

/-- Whether a step reduces the window: a signal that the controller answers with
a cut, or the return from a staged reduction. -/
def reduces (s : Session) : Step → Bool
  | .signal event => s.controller.cutsOn event
  | .setPhase phase _ => s.connection.phase = .cwr && phase = .normal
  | _ => false

theorem aboveFloor_step {packet : Option ControlPacket} (hlow : low ≤ windowFloor size)
    (h : AboveFloor size low s.connection) (hstep : s.step? step = some (packet, next)) :
    AboveFloor size low next.connection := by
  cases effect_of_step? hstep with
  | deposit _ => exact h
  | depositFound _ _ _ => exact h
  | nothingFound _ _ => exact h
  | acknowledge _ _ _ averages srtt controller connection _ controlled =>
      obtain ⟨cwnd, rfl, hup⟩ := Controller.acknowledge?_grows controlled
      have htimed : AboveFloor size low (s.connection.timed srtt) :=
        ⟨h.segmentSize, h.ssthresh, h.cwnd⟩
      exact htimed.grow hup
  | setPhase phase bytesInFlight => exact h.enter hlow phase bytesInFlight
  | signal event =>
      change AboveFloor size low (s.controller.signal s.connection event).2.2
      cases hcuts : s.controller.cutsOn event with
      | true =>
          obtain ⟨target, hcut⟩ := Controller.signal_cut hcuts s.connection
          rw [hcut]
          exact (h.reduceTo target).lower hlow
      | false =>
          obtain ⟨ecnState, hkept⟩ := Controller.signal_uncut hcuts s.connection
          rw [hkept]
          exact ⟨h.segmentSize, h.ssthresh, h.cwnd⟩
  | pollNothing _ => exact h
  | poll _ _ _ => exact h
  | setRcvNxt _ => exact ⟨h.segmentSize, h.ssthresh, h.cwnd⟩
  | setSndNxt _ => exact ⟨h.segmentSize, h.ssthresh, h.cwnd⟩

theorem reduction_lands (h : AboveFloor size low s.connection)
    (hreduces : s.reduces step = true) :
    ∃ next, s.step? step = some (none, next) ∧
      AboveFloor size (windowFloor size) next.connection ∧
      next.connection.cwnd = next.connection.ssthresh := by
  cases step with
  | signal event =>
      refine ⟨s.signal event, rfl, ?_⟩
      change AboveFloor size _ (s.controller.signal s.connection event).2.2 ∧
        (s.controller.signal s.connection event).2.2.cwnd =
          (s.controller.signal s.connection event).2.2.ssthresh
      obtain ⟨target, hcut⟩ := Controller.signal_cut hreduces s.connection
      rw [hcut]
      exact ⟨h.reduceTo target, rfl⟩
  | setPhase phase bytesInFlight =>
      obtain ⟨hphase, hnormal⟩ : s.connection.phase = .cwr ∧ phase = .normal := by
        simpa [reduces] using hreduces
      subst hnormal
      refine ⟨s.setPhase .normal bytesInFlight, rfl, ?_⟩
      rw [setPhase_eq]
      exact h.enter_normal hphase bytesInFlight
  | _ => cases hreduces

theorem aboveFloor_of_run {steps : List Step} {packets : List ControlPacket}
    (hlow : low ≤ windowFloor size) (h : AboveFloor size low s.connection)
    (hrun : s.run? steps = some (packets, next)) : AboveFloor size low next.connection := by
  have hkeeps (s : Session) (step : Step) (packet : Option ControlPacket) (next : Session)
      (hs : AboveFloor size low s.connection) (hstep : s.step? step = some (packet, next)) :
      AboveFloor size low next.connection := aboveFloor_step hlow hs hstep
  exact run?_keeps hkeeps hrun h

end Session

theorem Settings.segmentSize_le_initialCwnd {settings : Settings}
    (hvalid : settings.validate = .ok ()) :
    1 ≤ settings.segmentSize.toNat ∧
      settings.segmentSize.toNat ≤ settings.initialCwnd.toNat := by
  obtain ⟨_, _, hsize, hsegments⟩ := (settings.validate_eq_ok_iff).mp hvalid
  have hsize' : 0 < settings.segmentSize.toNat :=
    Nat.pos_of_ne_zero fun h => hsize (UInt32.toNat_inj.mp h)
  have hsegments' : 0 < settings.initialSegments.toNat :=
    Nat.pos_of_ne_zero fun h => hsegments (UInt32.toNat_inj.mp h)
  have hbound := settings.segmentSize.toNat_lt
  have hproduct := Nat.le_mul_of_pos_right settings.segmentSize.toNat hsegments'
  rw [initialCwnd, toNat_satMul]
  omega

namespace Session

/-- In every run the threshold stands above two segments and the window above
one. A reduction lands the window on the threshold, and from then on two
segments are the floor of both. -/
theorem windows_above_floor {settings : Settings} (hvalid : settings.validate = .ok ()) :
    1 ≤ settings.segmentSize.toNat ∧
    settings.segmentSize.toNat ≤
      min settings.initialCwnd.toNat (windowFloor settings.segmentSize) ∧
    ∃ start, create settings = .ok start ∧
      ∀ steps packets reached, start.run? steps = some (packets, reached) →
        windowFloor settings.segmentSize ≤ reached.connection.ssthresh.toNat ∧
        min settings.initialCwnd.toNat (windowFloor settings.segmentSize) ≤
          reached.connection.cwnd.toNat ∧
        ∀ step, reached.reduces step = true →
          ∃ next, reached.step? step = some (none, next) ∧
            next.connection.cwnd = next.connection.ssthresh ∧
            windowFloor settings.segmentSize ≤ next.connection.cwnd.toNat ∧
            ∀ later packets last, next.run? later = some (packets, last) →
              windowFloor settings.segmentSize ≤ last.connection.cwnd.toNat := by
  obtain ⟨hpos, hinitial⟩ := Settings.segmentSize_le_initialCwnd hvalid
  have hbound := settings.segmentSize.toNat_lt
  have hfloor : settings.segmentSize.toNat ≤ windowFloor settings.segmentSize := by
    unfold windowFloor
    omega
  obtain ⟨controller, ecnEnabled, ecnMode, codepoint, hcreate⟩ := create_fresh hvalid
  refine ⟨hpos, Nat.le_min.mpr ⟨hinitial, hfloor⟩, _, hcreate, ?_⟩
  intro steps packets reached hrun
  have hlow := Nat.min_le_right settings.initialCwnd.toNat (windowFloor settings.segmentSize)
  have hreached := aboveFloor_of_run hlow
    ⟨rfl, Nat.min_le_right _ _, Nat.min_le_left _ _⟩ hrun
  refine ⟨hreached.ssthresh, hreached.cwnd, ?_⟩
  intro step hreduces
  obtain ⟨next, hstep, hnext, hlanded⟩ := reduction_lands hreached hreduces
  refine ⟨next, hstep, hlanded, hnext.cwnd, ?_⟩
  intro later packets last hlater
  exact (aboveFloor_of_run (Nat.le_refl _) hnext hlater).cwnd

/-- Two of these segments do not fit the largest window, and the first window
holds one of them. -/
def hugeSegments : Settings :=
  { Settings.default with segmentSize := 3000000000, initialSegments := 1 }

def stagedReduction : List Step :=
  [.acknowledge 1 .threeMillis 1448, .setPhase .cwr 0, .acknowledge 1 .threeMillis 1448]

theorem windows_above_floor_hugeSegments :
    hugeSegments.validate = .ok () ∧
      ∃ start reached next, create hugeSegments = .ok start ∧
        start.connection.cwnd = 3000000000 ∧
        start.run? stagedReduction = some ([], reached) ∧
        reached.step? (.setPhase .normal 0) = some (none, next) ∧
        next.connection.cwnd = next.connection.ssthresh ∧
        next.connection.cwnd = 4294967295 ∧
        windowFloor hugeSegments.segmentSize ≤ next.connection.cwnd.toNat := by
  have hvalid : hugeSegments.validate = .ok () := by
    rw [Settings.validate_eq_ok_iff]
    decide +kernel
  obtain ⟨_, _, start, hcreate, h⟩ := windows_above_floor hvalid
  cases Except.ok.inj (hcreate.symm.trans (create_prague hvalid rfl))
  obtain ⟨_, _, hreduction⟩ := h stagedReduction _ _ rfl
  obtain ⟨next, hstep, hlanded, hfloor, _⟩ := hreduction (.setPhase .normal 0) (by decide +kernel)
  cases hstep
  exact ⟨hvalid, _, _, _, hcreate, rfl, rfl, rfl, hlanded, by decide +kernel, hfloor⟩

end Session

end ScalableCongestion
