import Mathlib.Algebra.Group.Nat.Defs
import ScalableCongestion.Proofs.DelayHistory

/-! No time that a session computes is too long for a duration while every round
trip is shorter than 2^61 seconds. The averages stay between the least and the
largest measurement, in whole nanoseconds, and eight of the largest still fit. -/
namespace ScalableCongestion

namespace Step

def isBrief : Step → Bool
  | .acknowledge _ rtt _ => rtt.nanos < 2 ^ 61 * Duration.nanosPerSecond
  | _ => true

def MeasuresBetween (low high : Nat) (step : Step) : Prop :=
  ∀ rtt, step.measured? = some rtt → low ≤ rtt.nanos ∧ rtt.nanos ≤ high

theorem measured?_acknowledge {segments bytes : UInt32} {rtt : Duration}
    (h : rtt.isZero = false) : (acknowledge segments rtt bytes).measured? = some rtt := by
  rw [measured?, h, if_neg Bool.false_ne_true]

theorem measured_lt {step : Step} {rtt : Duration} (h : step.isBrief = true)
    (hmeasured : step.measured? = some rtt) : rtt.nanos < 2 ^ 61 * Duration.nanosPerSecond := by
  cases step with
  | acknowledge segments rtt' bytes =>
      rw [measured?] at hmeasured
      split at hmeasured
      · contradiction
      · cases hmeasured
        exact of_decide_eq_true h
  | _ => contradiction

end Step

/-- Only the detector's threshold can leave no room for an answer. -/
theorem Controller.exists_acknowledge (k : Controller) (c : Connection) {a : Acknowledgement}
    (hfits : a.rtt.nanos + 3000000 < Duration.capacity) :
    ∃ next, k.acknowledge? c a = some next := by
  cases k with
  | reno r => exact ⟨_, rfl⟩
  | prague p =>
      cases hphase : c.phase.isRecovering with
      | true => exact ⟨_, acknowledge?_prague_recovering hphase⟩
      | false =>
          obtain ⟨change, queue, hsample⟩ := p.queue.exists_sample c.srtt hfits
          rw [acknowledge?, Prague.acknowledge?_taken hphase, hsample]
          exact ⟨_, rfl⟩

namespace Session

variable {s next reached : Session} {step : Step} {steps : List Step} {low high : Nat}
  {packet : Option ControlPacket} {packets : List ControlPacket}

theorem exists_timing_between (h : s.rtt.Between low high) {segments bytes : UInt32}
    {rtt : Duration} (hmeasured : (Step.acknowledge segments rtt bytes).MeasuresBetween low high)
    (hfits : 8 * high < Duration.capacity) :
    ∃ srtt averages, s.timing? rtt = some (srtt, averages) := by
  unfold timing?
  cases hzero : rtt.isZero with
  | true => exact ⟨_, _, rfl⟩
  | false =>
      obtain ⟨hlow, hhigh⟩ := hmeasured rtt (Step.measured?_acknowledge hzero)
      obtain ⟨srtt, averages, hupdate, _⟩ := h.exists_update hlow hhigh hfits
      exact ⟨srtt, averages, hupdate⟩

theorem exists_step_between (h : s.rtt.Between low high)
    (hmeasured : step.MeasuresBetween low high) (hfits : 8 * high < Duration.capacity) :
    ∃ packet next, s.step? step = some (packet, next) := by
  cases step with
  | acknowledge segments rtt bytes =>
      have hthreshold : rtt.nanos + 3000000 < Duration.capacity := by
        have hcapacity : Duration.capacity = 2 ^ 64 * 1000000000 := rfl
        cases hzero : rtt.isZero with
        | true =>
            have hnanos : rtt.nanos = 0 := beq_iff_eq.mp hzero
            omega
        | false =>
            have hbounds := hmeasured rtt (Step.measured?_acknowledge hzero)
            omega
      obtain ⟨srtt, averages, htiming⟩ := exists_timing_between h hmeasured hfits
      obtain ⟨controlled, hcontrolled⟩ := s.controller.exists_acknowledge (s.connection.timed srtt)
        (a := ⟨segments, rtt, s.mailbox.pending, bytes⟩) hthreshold
      have hnext := s.acknowledge?_eq segments rtt bytes
      simp only [htiming, hcontrolled, Option.bind_some, Option.map_some] at hnext
      exact ⟨_, _, Option.map_eq_some_iff.mpr ⟨_, hnext, rfl⟩⟩
  | _ => exact ⟨_, _, rfl⟩

theorem between_of_step (h : s.rtt.Between low high)
    (hmeasured : step.MeasuresBetween low high) (hfits : 8 * high < Duration.capacity)
    (hstep : s.step? step = some (packet, next)) : next.rtt.Between low high := by
  have htiming := (delayed_of_step hstep).timing
  cases hsample : step.measured? with
  | none =>
      rw [hsample] at htiming
      rw [htiming.1]
      exact h
  | some rtt =>
      rw [hsample] at htiming
      obtain ⟨hlow, hhigh⟩ := hmeasured rtt hsample
      obtain ⟨_, _, hupdate, hnext⟩ := h.exists_update hlow hhigh hfits
      cases htiming.symm.trans hupdate
      exact hnext

theorem exists_run_between (h : s.rtt.Between low high)
    (hmeasured : ∀ step ∈ steps, step.MeasuresBetween low high)
    (hfits : 8 * high < Duration.capacity) :
    ∃ packets last, s.run? steps = some (packets, last) ∧ last.rtt.Between low high := by
  induction steps generalizing s with
  | nil => exact ⟨[], s, rfl, h⟩
  | cons step steps ih =>
      obtain ⟨hfirst, hlater⟩ := List.forall_mem_cons.mp hmeasured
      obtain ⟨packet, next, hstep⟩ := exists_step_between h hfirst hfits
      obtain ⟨packets, last, hrun, hlast⟩ := ih (between_of_step h hfirst hfits hstep) hlater
      exact ⟨_, last, run?_cons_eq_some_iff.mpr ⟨packet, next, packets, hstep, hrun, rfl⟩, hlast⟩

theorem averages_of_run {start : Session} (hrtt : start.rtt = .initial)
    (hsrtt : start.connection.srtt = .zero) (hrun : start.run? steps = some (packets, reached)) :
    reached.rtt.Averages (measurements steps) ∧
      reached.connection.srtt.nanos = SmoothedRtt.average (measurements steps) := by
  refine run?_induction (motive := fun past _ reached => reached.rtt.Averages (measurements past) ∧
    reached.connection.srtt.nanos = SmoothedRtt.average (measurements past)) ?_ ?_ hrun
  · rw [hrtt, hsrtt]
    exact ⟨SmoothedRtt.averages_initial, rfl⟩
  · rintro past packets middle step packet next _ ⟨haverages, hsrtt⟩ hstep
    exact (delayed_of_step hstep).averages haverages hsrtt

theorem measuresBetween_of_mem (h : ∀ sample ∈ measurements steps, low ≤ sample ∧ sample ≤ high) :
    ∀ step ∈ steps, step.MeasuresBetween low high := by
  intro step hmem rtt hmeasured
  apply h
  exact List.mem_map_of_mem (List.mem_filterMap.mpr ⟨step, hmem, hmeasured⟩)

theorem measurements_lt (h : ∀ step ∈ steps, step.isBrief = true) :
    ∀ sample ∈ measurements steps, sample < 2 ^ 61 * Duration.nanosPerSecond := by
  intro sample hsample
  obtain ⟨rtt, hrtt, rfl⟩ := List.mem_map.mp hsample
  obtain ⟨step, hmem, hmeasured⟩ := List.mem_filterMap.mp hrtt
  exact Step.measured_lt (h step hmem) hmeasured

theorem exists_run_of_brief {start : Session} (hrtt : start.rtt = .initial)
    (hbrief : ∀ step ∈ steps, step.isBrief = true) :
    ∃ packets reached, start.run? steps = some (packets, reached) := by
  have hbounds : ∀ sample ∈ measurements steps,
      0 ≤ sample ∧ sample ≤ 2 ^ 61 * Duration.nanosPerSecond - 1 := by
    intro sample hsample
    exact ⟨Nat.zero_le sample, Nat.le_pred_of_lt (measurements_lt hbrief sample hsample)⟩
  obtain ⟨packets, reached, hrun, _⟩ := exists_run_between
    (hrtt ▸ SmoothedRtt.between_initial _ _) (measuresBetween_of_mem hbounds) (by decide)
  exact ⟨packets, reached, hrun⟩

theorem averages_between {start : Session} (hrtt : start.rtt = .initial)
    (hsrtt : start.connection.srtt = .zero) (hrun : start.run? steps = some (packets, reached))
    (hmeasured : measurements steps ≠ [])
    (hbounds : ∀ sample ∈ measurements steps, low ≤ sample ∧ sample ≤ high)
    (hfits : 8 * high < Duration.capacity) :
    (low ≤ reached.connection.srtt.nanos ∧ reached.connection.srtt.nanos ≤ high) ∧
      reached.rtt.variation.nanos ≤ high := by
  obtain ⟨_, _, hrun', hbetween⟩ := exists_run_between
    (hrtt ▸ SmoothedRtt.between_initial low high) (measuresBetween_of_mem hbounds) hfits
  cases hrun.symm.trans hrun'
  obtain ⟨haverages, hsrtt'⟩ := averages_of_run hrtt hsrtt hrun
  unfold SmoothedRtt.Averages at haverages
  cases hsmoothed : reached.rtt.smoothed with
  | none =>
      rw [hsmoothed] at haverages
      contradiction
  | some smoothed =>
      rw [hsmoothed] at haverages
      rw [hsrtt', ← haverages.2]
      exact ⟨hbetween.smoothed smoothed hsmoothed, hbetween.variation⟩

theorem timing_of_create {settings : Settings} (hvalid : settings.validate = .ok ()) :
    ∃ start, create settings = .ok start ∧ start.rtt = .initial ∧
      start.connection.srtt = .zero := by
  obtain ⟨controller, ecnEnabled, ecnMode, codepoint, hcreate⟩ := create_fresh hvalid
  exact ⟨_, hcreate, rfl, rfl⟩

/-- While all round trips are shorter than 2^61 seconds, no run of either
algorithm stops. Its smoothed round trip lies between the least and the largest
measurement so far, and the variation is at most the largest. -/
theorem delays_stay_between {settings : Settings} (hvalid : settings.validate = .ok ()) :
    ∃ start, create settings = .ok start ∧
      ∀ steps, (∀ step ∈ steps, step.isBrief = true) →
        ∃ packets reached, start.run? steps = some (packets, reached) ∧
          (measurements steps = [] → reached.connection.srtt = .zero) ∧
          ∀ low high, (measurements steps).min? = some low →
            (measurements steps).max? = some high →
            low ≤ reached.connection.srtt.nanos ∧ reached.connection.srtt.nanos ≤ high ∧
            reached.rtt.variation.nanos ≤ high := by
  obtain ⟨start, hcreate, hrtt, hsrtt⟩ := timing_of_create hvalid
  refine ⟨start, hcreate, ?_⟩
  intro steps hbrief
  obtain ⟨packets, reached, hrun⟩ := exists_run_of_brief hrtt hbrief
  refine ⟨packets, reached, hrun, ?_, ?_⟩
  · intro hnothing
    have haverage := (averages_of_run hrtt hsrtt hrun).2
    rw [hnothing] at haverage
    exact Duration.ext haverage
  · intro low high hleast hlargest
    obtain ⟨hmem, hlow⟩ := List.min?_eq_some_iff.mp hleast
    obtain ⟨hmem', hhigh⟩ := List.max?_eq_some_iff.mp hlargest
    have hlt := measurements_lt hbrief high hmem'
    have hfits : 8 * high < Duration.capacity := by
      have hcapacity : Duration.capacity = 8 * (2 ^ 61 * Duration.nanosPerSecond) := rfl
      omega
    have hbetween := averages_between hrtt hsrtt hrun (List.ne_nil_of_mem hmem)
      (fun sample hsample => ⟨hlow sample hsample, hhigh sample hsample⟩) hfits
    exact ⟨hbetween.1.1, hbetween.1.2, hbetween.2⟩

def longest : Duration := ⟨2 ^ 61 * Duration.nanosPerSecond - 1, by decide⟩

def oneNano : Duration := ⟨1, by decide⟩

def longAndShort : List Step :=
  [.acknowledge 1 longest 1448, .setPhase .recovery 0, .acknowledge 1 oneNano 1448,
    .setPhase .normal 0, .acknowledge 1 .zero 0, .acknowledge 2 longest 2896]

theorem delays_stay_between_longAndShort :
    Settings.default.validate = .ok () ∧ (∀ step ∈ longAndShort, step.isBrief = true) ∧
      (measurements longAndShort).min? = some 1 ∧
      (measurements longAndShort).max? = some (2 ^ 61 * Duration.nanosPerSecond - 1) ∧
      ∃ start packets reached, create .default = .ok start ∧
        start.run? longAndShort = some (packets, reached) ∧
        reached.connection.srtt.nanos = 2053641430080946175999999999 ∧
        1 ≤ reached.connection.srtt.nanos ∧
        reached.rtt.variation.nanos ≤ 2 ^ 61 * Duration.nanosPerSecond - 1 := by
  have hvalid := Settings.validate_default
  have hbrief : ∀ step ∈ longAndShort, step.isBrief = true :=
    List.all_eq_true.mp (by decide +kernel)
  obtain ⟨start, hcreate, h⟩ := delays_stay_between hvalid
  cases Except.ok.inj (hcreate.symm.trans (create_eq_startPrague hvalid rfl))
  obtain ⟨packets, reached, hrun, _, hbetween⟩ := h longAndShort hbrief
  obtain ⟨hlow, _, hvariation⟩ := hbetween _ _ rfl rfl
  have hsrtt : ((startPrague .default).run? longAndShort).map
      (fun result => result.2.connection.srtt.nanos) = some 2053641430080946175999999999 := by
    decide +kernel
  rw [hrun, Option.map_some, Option.some.injEq] at hsrtt
  exact ⟨hvalid, hbrief, rfl, rfl, _, packets, reached, hcreate, hrun, hsrtt, hlow, hvariation⟩

/-- One nanosecond more is too long, the second time. -/
example : ((startPrague .default).run? (List.replicate 2
    (.acknowledge 1 ⟨2 ^ 61 * Duration.nanosPerSecond, by decide⟩ 1448))).isNone = true := by
  decide +kernel

end Session

end ScalableCongestion
