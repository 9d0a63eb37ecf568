import ScalableCongestion.Proofs.StepFrame

/-! A staged reduction from its beginning to its end. Entering it stages half of
the data in flight as the threshold, and nothing moves the window until it is
over, unless the controller cuts: then window and threshold are one value, and
stay so. Returning to normal operation lands the window on the threshold. -/
namespace ScalableCongestion

namespace Session

variable {s middle next last : Session} {step : Step} {packet : Option ControlPacket}
  {packets : List ControlPacket}

/-- A step that makes the controller cut the window: a loss, or a mark while a
classic queue is suspected. -/
def cuts (s : Session) : Step → Bool
  | .signal event => s.controller.cutsOn event
  | _ => false

/-- Whether a run holds a step that cuts. -/
def cutIn (s : Session) : List Step → Bool
  | [] => false
  | step :: steps => s.cuts step || match s.step? step with
    | none => false
    | some (_, next) => next.cutIn steps

theorem cutIn_cons (hstep : s.step? step = some (packet, next)) (steps : List Step) :
    s.cutIn (step :: steps) = (s.cuts step || next.cutIn steps) := by
  rw [cutIn, hstep]

theorem cutIn_append {past : List Step} (hpast : s.run? past = some (packets, middle))
    (later : List Step) : s.cutIn (past ++ later) = (s.cutIn past || middle.cutIn later) := by
  induction past generalizing s packets with
  | nil =>
      cases hpast
      rfl
  | cons step past ih =>
      obtain ⟨_, next, rest, hstep, hrest, _⟩ := run?_cons_eq_some_iff.mp hpast
      rw [List.cons_append, cutIn_cons hstep, cutIn_cons hstep, ih hrest, Bool.or_assoc]

theorem cutIn_concat {past : List Step} (hpast : s.run? past = some (packets, middle))
    (hstep : middle.step? step = some (packet, next)) :
    s.cutIn (past ++ [step]) = (s.cutIn past || middle.cuts step) := by
  rw [cutIn_append hpast, cutIn_cons hstep, cutIn, Bool.or_false]

theorem cutIn_of_passes {steps past : List Step} (hpast : s.Passes steps past middle)
    (h : s.cutIn steps = false) : s.cutIn past = false := by
  obtain ⟨later, _, rfl, hrun⟩ := hpast
  rw [cutIn_append hrun, Bool.or_eq_false_iff] at h
  exact h.1

theorem cut_of_step (hcut : s.cuts step = true) (hstep : s.step? step = some (packet, next)) :
    ∃ event, s.controller.cutsOn event = true ∧
      next.connection = s.connection.reduceTo (s.controller.cutTarget s.connection event) := by
  cases effect_of_step? hstep with
  | signal event => exact ⟨event, hcut, Controller.signal_eq_reduceTo hcut s.connection⟩
  | _ => cases hcut

theorem uncut_of_step (hphase : s.connection.phase = .cwr) (hnext : next.connection.phase = .cwr)
    (hcut : s.cuts step = false) (hstep : s.step? step = some (packet, next)) :
    next.connection.cwnd = s.connection.cwnd ∧
      next.connection.ssthresh = s.connection.ssthresh := by
  have hframe := frame_of_step hstep
  have hgrows : s.growsWindow step = false := by
    have hstill : s.controller.growsIn .cwr = false := by cases s.controller <;> rfl
    rw [growsWindow, hphase, hstill, Bool.and_false]
  have hreduces : s.reduces step = false := by
    cases step with
    | signal event => exact hcut
    | setPhase phase bytesInFlight =>
        cases effect_of_step? hstep with
        | setPhase _ _ =>
            -- the run stays in the reduction, so this is no return from it
            rw [Connection.phase_enter] at hnext
            simp [reduces, hnext]
    | _ => rfl
  have hmoves : s.movesThreshold step = false := by
    cases step with
    | signal event => exact hcut
    | setPhase phase bytesInFlight => simp [movesThreshold, hphase]
    | _ => rfl
  exact ⟨hframe.cwnd hgrows hreduces, hframe.ssthresh hmoves⟩

/-- Where a reduction stands that `s` has entered with `bytesInFlight`. -/
structure Reducing (s : Session) (bytesInFlight : UInt32) (cut : Bool) (reached : Session) :
    Prop where
  segmentSize : reached.connection.segmentSize = s.connection.segmentSize
  floor : windowFloor s.connection.segmentSize ≤ reached.connection.ssthresh.toNat
  uncut : cut = false → reached.connection.cwnd = s.connection.cwnd ∧
    reached.connection.ssthresh = max s.connection.minWindow (bytesInFlight / 2)
  landed : cut = true → reached.connection.cwnd = reached.connection.ssthresh

namespace Reducing

variable {bytesInFlight : UInt32} {cut : Bool}

theorem enter (hphase : s.connection.phase ≠ .cwr) (bytesInFlight : UInt32) :
    Reducing s bytesInFlight false (s.setPhase .cwr bytesInFlight) := by
  have hthreshold : (s.connection.enter .cwr bytesInFlight).ssthresh =
      max s.connection.minWindow (bytesInFlight / 2) :=
    (s.connection.ssthresh_enter .cwr bytesInFlight).trans (if_pos ⟨rfl, hphase⟩)
  rw [setPhase_eq]
  refine ⟨s.connection.segmentSize_enter .cwr bytesInFlight, ?_, fun _ => ⟨?_, hthreshold⟩, nofun⟩
  · change _ ≤ (s.connection.enter .cwr bytesInFlight).ssthresh.toNat
    rw [hthreshold, toNat_max, Connection.toNat_minWindow]
    exact Nat.le_max_left _ _
  · exact (s.connection.cwnd_enter .cwr bytesInFlight).trans (if_neg nofun)

theorem extend (h : Reducing s bytesInFlight cut middle) (hphase : middle.connection.phase = .cwr)
    (hnext : next.connection.phase = .cwr) (hstep : middle.step? step = some (packet, next)) :
    Reducing s bytesInFlight (cut || middle.cuts step) next := by
  have hsize : next.connection.segmentSize = s.connection.segmentSize :=
    (congrArg Fixture.segmentSize (frame_of_step hstep).fixture).trans h.segmentSize
  cases hcut : middle.cuts step with
  | false =>
      obtain ⟨hcwnd, hssthresh⟩ := uncut_of_step hphase hnext hcut hstep
      rw [Bool.or_false]
      refine ⟨hsize, ?_, ?_, ?_⟩
      · rw [hssthresh]
        exact h.floor
      · rw [hcwnd, hssthresh]
        exact h.uncut
      · rw [hcwnd, hssthresh]
        exact h.landed
  | true =>
      obtain ⟨event, _, hreduced⟩ := cut_of_step hcut hstep
      rw [Bool.or_true]
      refine ⟨hsize, ?_, nofun, ?_⟩
      · rw [hreduced, ← h.segmentSize]
        exact Connection.windowFloor_le_reduceTo ..
      · intro _
        rw [hreduced]
        rfl

theorem again (hphase : middle.connection.phase = .cwr) (bytesInFlight : UInt32) :
    middle.step? (.setPhase .cwr bytesInFlight) = some (none, middle) := by
  rw [step?, ← hphase, setPhase_same]

theorem leave (h : Reducing s bytesInFlight cut middle) (hphase : middle.connection.phase = .cwr)
    (bytesInFlight' : UInt32) :
    ∃ next, middle.step? (.setPhase .normal bytesInFlight') = some (none, next) ∧
      next.connection.cwnd = middle.connection.ssthresh ∧
      next.connection.ssthresh = middle.connection.ssthresh := by
  refine ⟨_, rfl, ?_, ?_⟩
  · rw [setPhase_eq]
    refine (middle.connection.cwnd_enter .normal bytesInFlight').trans ?_
    rw [if_pos ⟨hphase, rfl⟩, ← UInt32.toNat_inj, toNat_max, Connection.toNat_minWindow,
      h.segmentSize]
    exact Nat.max_eq_left h.floor
  · rw [setPhase_eq]
    exact (middle.connection.ssthresh_enter .normal bytesInFlight').trans (if_neg nofun)

end Reducing

theorem reducing_of_run (hphase : s.connection.phase ≠ .cwr) {bytesInFlight : UInt32}
    {steps : List Step} (hrun : (s.setPhase .cwr bytesInFlight).run? steps = some (packets, last))
    (hstays : (s.setPhase .cwr bytesInFlight).StaysIn .cwr steps) :
    Reducing s bytesInFlight ((s.setPhase .cwr bytesInFlight).cutIn steps) last := by
  refine hstays.induction (motive := fun past reached =>
    Reducing s bytesInFlight ((s.setPhase .cwr bytesInFlight).cutIn past) reached)
    (.enter hphase bytesInFlight) ?_ hrun
  intro past packets middle step packet next hpast hmiddle hphase hnext hstep
  rw [cutIn_concat hpast hstep]
  exact hmiddle.extend hphase hnext hstep

/-- The law of a staged reduction, whatever happens while it lasts. Without a cut
the window keeps the value it had at the beginning, and lands on half of the data
in flight, at the least on the floor. From a cut on window and threshold are the
same, and the end changes neither. -/
theorem reduction_law (hphase : s.connection.phase ≠ .cwr) {bytesInFlight : UInt32}
    {steps : List Step} (hrun : (s.setPhase .cwr bytesInFlight).run? steps = some (packets, last))
    (hstays : (s.setPhase .cwr bytesInFlight).StaysIn .cwr steps) :
    ((s.setPhase .cwr bytesInFlight).cutIn steps = false →
      (∀ past middle, (s.setPhase .cwr bytesInFlight).Passes steps past middle →
        middle.connection.cwnd = s.connection.cwnd ∧
        middle.connection.ssthresh = max s.connection.minWindow (bytesInFlight / 2)) ∧
      ∀ bytesInFlight', ∃ next,
        last.step? (.setPhase .normal bytesInFlight') = some (none, next) ∧
        next.connection.cwnd = max s.connection.minWindow (bytesInFlight / 2) ∧
        next.connection.ssthresh = next.connection.cwnd) ∧
    ((s.setPhase .cwr bytesInFlight).cutIn steps = true →
      (∀ past middle, (s.setPhase .cwr bytesInFlight).Passes steps past middle →
        (s.setPhase .cwr bytesInFlight).cutIn past = true →
        middle.connection.cwnd = middle.connection.ssthresh) ∧
      ∀ bytesInFlight', ∃ next,
        last.step? (.setPhase .normal bytesInFlight') = some (none, next) ∧
        next.connection.cwnd = last.connection.cwnd ∧
        next.connection.ssthresh = last.connection.ssthresh) ∧
    ∀ past middle, (s.setPhase .cwr bytesInFlight).Passes steps past middle →
      ∀ bytesInFlight', middle.step? (.setPhase .cwr bytesInFlight') = some (none, middle) := by
  have hreducing {past : List Step} {middle : Session}
      (hpast : (s.setPhase .cwr bytesInFlight).Passes steps past middle) :
      Reducing s bytesInFlight ((s.setPhase .cwr bytesInFlight).cutIn past) middle := by
    obtain ⟨_, _, _, hpassed⟩ := id hpast
    exact reducing_of_run hphase hpassed (hstays.passed hpast)
  have hlast := hreducing (passes_of_run hrun)
  have hend := hstays _ _ (passes_of_run hrun)
  refine ⟨?_, ?_, ?_⟩
  · intro hcut
    constructor
    · intro past middle hpast
      exact (hreducing hpast).uncut (cutIn_of_passes hpast hcut)
    · intro bytesInFlight'
      obtain ⟨next, hstep, hcwnd, hssthresh⟩ := hlast.leave hend bytesInFlight'
      exact ⟨next, hstep, hcwnd.trans (hlast.uncut hcut).2, hssthresh.trans hcwnd.symm⟩
  · intro hcut
    constructor
    · intro past middle hpast hcutPast
      exact (hreducing hpast).landed hcutPast
    · intro bytesInFlight'
      obtain ⟨next, hstep, hcwnd, hssthresh⟩ := hlast.leave hend bytesInFlight'
      exact ⟨next, hstep, hcwnd.trans (hlast.landed hcut).symm, hssthresh⟩
  · intro past middle hpast
    exact Reducing.again (hstays past middle hpast)

def markedReduction : List Step :=
  [.aceOption ⟨724⟩, .acknowledge 1 .threeMillis 1448, .setPhase .cwr 999, .signal .marked]

def lostReduction : List Step := markedReduction ++ [.signal .loss, .poll]

theorem reduction_law_markedThenLost :
    ∃ s marked lost next next', create .default = .ok s ∧ s.connection.phase ≠ .cwr ∧
      s.connection.cwnd = 14480 ∧
      (s.setPhase .cwr 20000).run? markedReduction = some ([], marked) ∧
      (s.setPhase .cwr 20000).StaysIn .cwr markedReduction ∧
      (s.setPhase .cwr 20000).cutIn markedReduction = false ∧
      marked.connection.cwnd = 14480 ∧
      marked.step? (.setPhase .normal 0) = some (none, next) ∧ next.connection.cwnd = 10000 ∧
      (s.setPhase .cwr 20000).run? lostReduction = some ([], lost) ∧
      (s.setPhase .cwr 20000).StaysIn .cwr lostReduction ∧
      (s.setPhase .cwr 20000).cutIn lostReduction = true ∧
      lost.step? (.setPhase .normal 0) = some (none, next') ∧
      next'.connection.cwnd = lost.connection.cwnd := by
  have hphase : (startPrague .default).connection.phase ≠ .cwr := nofun
  have hmarked : ((startPrague .default).setPhase .cwr 20000).StaysIn .cwr markedReduction :=
    .cons rfl rfl <| .cons rfl rfl <| .cons rfl rfl <| .cons rfl rfl <| .nil rfl
  have hlost : ((startPrague .default).setPhase .cwr 20000).StaysIn .cwr lostReduction :=
    .cons rfl rfl <| .cons rfl rfl <| .cons rfl rfl <| .cons rfl rfl <| .cons rfl rfl <|
      .cons rfl rfl <| .nil rfl
  have huncut : ((startPrague .default).setPhase .cwr 20000).cutIn markedReduction = false := by
    decide +kernel
  have hcut : ((startPrague .default).setPhase .cwr 20000).cutIn lostReduction = true := by
    decide +kernel
  obtain ⟨hkept, _⟩ := reduction_law hphase rfl hmarked
  obtain ⟨_, hlanded, _⟩ := reduction_law hphase rfl hlost
  obtain ⟨hpassed, hland⟩ := hkept huncut
  obtain ⟨next, hnext, hcwnd, _⟩ := hland 0
  obtain ⟨next', hnext', hcwnd', _⟩ := (hlanded hcut).2 0
  exact ⟨_, _, _, next, next', create_eq_startPrague Settings.validate_default rfl, hphase, rfl,
    rfl, hmarked, huncut,
    (hpassed _ _ (passes_of_run rfl)).1, hnext, hcwnd, rfl, hlost, hcut, hnext', hcwnd'⟩

end Session

end ScalableCongestion
