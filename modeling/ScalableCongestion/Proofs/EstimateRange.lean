import ScalableCongestion.Proofs.Control.Prague
import ScalableCongestion.Proofs.Marking.Estimator
import ScalableCongestion.Proofs.Session.Run
import ScalableCongestion.Proofs.Session.Start
import ScalableCongestion.Proofs.StepFrame

/-! The estimate stays a fraction. Whatever is done to a controller, in whatever
order, its estimate and its gain are numbers between zero and one: the settings
are checked before they are taken, and no update leaves the interval. -/
namespace ScalableCongestion
open Binary64

inductive PragueCall where
  | setAlpha (value : Float)
  | setGain (value : Float)
  | setUseEct0 (useEct0 : Bool)
  | init (c : Connection)
  | acknowledge (c : Connection) (a : Acknowledgement)
  | signal (c : Connection) (event : Signal)

structure IsFraction (x : Float) : Prop where
  number : x.isNaN = false
  nonneg : 0.0 ≤ x
  le_one : x ≤ 1.0

theorem isFraction_of_inUnit {x : Float} (h : inUnit x = true) : IsFraction x := by
  obtain ⟨q, hq, hlow, hhigh⟩ := inUnit_iff.mp h
  exact ⟨hq.isNaN_eq_false, (le_iff denotes_zero hq).mpr hlow, (le_iff hq denotes_one).mpr hhigh⟩

theorem IsFraction.inUnit {x : Float} (h : IsFraction x) : inUnit x = true := by
  rw [ScalableCongestion.inUnit, Bool.and_eq_true, decide_eq_true_iff, decide_eq_true_iff]
  exact ⟨h.nonneg, h.le_one⟩

namespace Prague

/-- The controller after a call, whatever the call answers. -/
def call? (p : Prague) : PragueCall → Option Prague
  | .setAlpha value => some (p.setAlpha value).2
  | .setGain value => some (p.setGain value).2
  | .setUseEct0 useEct0 => some (p.setUseEct0 useEct0)
  | .init c => some (p.init c).1
  | .acknowledge c a => (p.acknowledge? c a).map (·.1)
  | .signal c event => some (p.signal c event).2.1

def calls? (p : Prague) (calls : List PragueCall) : Option Prague := calls.foldlM call? p

structure Bounded (p : Prague) : Prop where
  alpha_inUnit : inUnit p.alpha = true
  gain_inUnit : inUnit p.gain = true
  last_inUnit : ∀ estimate, p.lastEstimate = some estimate → inUnit estimate.alpha = true

theorem Bounded.of_same {p next : Prague} (h : p.Bounded)
    (hestimator : next.estimator = p.estimator) (hlast : next.lastEstimate = p.lastEstimate) :
    next.Bounded := by
  refine ⟨?_, ?_, ?_⟩
  · rw [alpha, hestimator]
    exact h.alpha_inUnit
  · rw [gain, hestimator]
    exact h.gain_inUnit
  · rw [hlast]
    exact h.last_inUnit

theorem bounded_initial : initial.Bounded := by
  refine ⟨by decide +kernel, by decide +kernel, ?_⟩
  intro estimate hestimate
  cases hestimate

theorem Bounded.set {p : Prague} (h : p.Bounded) (setting : UnitSetting) (value : Float) :
    (p.set setting value).2.Bounded := by
  unfold Prague.set
  split
  · exact h
  · split
    · next hvalue =>
        cases setting with
        | gain => exact ⟨h.alpha_inUnit, hvalue, h.last_inUnit⟩
        | initialAlpha => exact ⟨hvalue, h.gain_inUnit, h.last_inUnit⟩
    · exact h

theorem Bounded.folded {p : Prague} (h : p.Bounded) (queue : ClassicQueue) (a : Acknowledgement) :
    (p.folded queue a).Bounded := by
  have hnext := Estimator.advance_inUnit h.alpha_inUnit h.gain_inUnit a.ceBytes a.bytes
  refine ⟨hnext, h.gain_inUnit, ?_⟩
  intro estimate hestimate
  cases hestimate
  exact hnext

theorem Bounded.acknowledge {p next : Prague} {c after : Connection} {a : Acknowledgement}
    (h : p.Bounded) (hacknowledge : p.acknowledge? c a = some (next, after)) : next.Bounded := by
  rcases acknowledge?_eq_some hacknowledge with ⟨_, rfl, _⟩ | ⟨_, _, queue, _, rfl, _⟩
  · exact h
  · exact h.folded queue a

theorem Bounded.signal {p : Prague} (h : p.Bounded) (c : Connection) (event : Signal) :
    (p.signal c event).2.1.Bounded := by
  rw [signal_frame]
  exact h.of_same rfl rfl

theorem Bounded.call {p next : Prague} (h : p.Bounded) {call : PragueCall}
    (hcall : p.call? call = some next) : next.Bounded := by
  cases call with
  | setAlpha value =>
      cases Option.some.inj hcall
      exact h.set .initialAlpha value
  | setGain value =>
      cases Option.some.inj hcall
      exact h.set .gain value
  | setUseEct0 useEct0 =>
      cases Option.some.inj hcall
      exact h.of_same rfl rfl
  | init c =>
      cases Option.some.inj hcall
      exact h.of_same rfl rfl
  | acknowledge c a =>
      obtain ⟨_, hacknowledge, rfl⟩ := Option.map_eq_some_iff.mp hcall
      exact h.acknowledge hacknowledge
  | signal c event =>
      cases Option.some.inj hcall
      exact h.signal c event

theorem Bounded.calls {p reached : Prague} (h : p.Bounded) {calls : List PragueCall}
    (hcalls : p.calls? calls = some reached) : reached.Bounded := by
  induction calls generalizing p with
  | nil =>
      cases Option.some.inj hcalls
      exact h
  | cons call calls ih =>
      obtain ⟨next, hcall, hrest⟩ := Option.bind_eq_some_iff.mp hcalls
      exact ih (h.call hcall) hrest

theorem bounded_configured {settings : Settings} (hgain : inUnit settings.gain = true)
    (halpha : inUnit settings.initialAlpha = true) : (configured settings).Bounded := by
  refine ⟨halpha, hgain, ?_⟩
  intro estimate hestimate
  cases hestimate

end Prague

namespace Session

def PragueBounded (s : Session) : Prop := ∃ p, s.controller = .prague p ∧ p.Bounded

theorem PragueBounded.step {s next : Session} (h : s.PragueBounded) {step : Step}
    {packet : Option ControlPacket} (hstep : s.step? step = some (packet, next)) :
    next.PragueBounded := by
  obtain ⟨p, hp, hbounded⟩ := h
  cases effect_of_step? hstep with
  | deposit _ => exact ⟨p, hp, hbounded⟩
  | depositFound _ _ _ => exact ⟨p, hp, hbounded⟩
  | nothingFound _ _ => exact ⟨p, hp, hbounded⟩
  | acknowledge _ _ _ averages srtt controller connection _ controlled =>
      rw [hp] at controlled
      obtain ⟨p', rfl, hacknowledge⟩ := Controller.acknowledge?_prague controlled
      exact ⟨p', rfl, hbounded.acknowledge hacknowledge⟩
  | setPhase _ _ => exact ⟨p, hp, hbounded⟩
  | signal event =>
      rw [signal_prague hp]
      exact ⟨_, rfl, hbounded.signal s.connection event⟩
  | pollNothing _ => exact ⟨p, hp, hbounded⟩
  | poll _ _ _ => exact ⟨p, hp, hbounded⟩
  | setRcvNxt _ => exact ⟨p, hp, hbounded⟩
  | setSndNxt _ => exact ⟨p, hp, hbounded⟩

theorem pragueBounded_of_create {settings : Settings} (hvalid : settings.validate = .ok ())
    (halgorithm : settings.algorithm = .prague) :
    ∃ start, create settings = .ok start ∧ start.PragueBounded := by
  obtain ⟨hgain, halpha, _⟩ := (settings.validate_eq_ok_iff).mp hvalid
  have hbounded := Prague.bounded_configured hgain halpha
  exact ⟨_, create_prague hvalid halgorithm, _, rfl, hbounded.of_same rfl rfl⟩

/-- Where a session has an estimate, it is a fraction, and so is the gain. -/
def EstimatesFractions (s : Session) : Prop := ∀ p, s.controller = .prague p → p.Bounded

theorem EstimatesFractions.of_step {s next : Session} (h : s.EstimatesFractions) {step : Step}
    {packet : Option ControlPacket} (hstep : s.step? step = some (packet, next)) :
    next.EstimatesFractions := by
  intro p' hp'
  cases hs : s.controller with
  | reno r =>
      have hsame := congrArg Fixture.algorithm (frame_of_step hstep).fixture
      rw [fixture, fixture, Fixture.of, Fixture.of, hs, hp'] at hsame
      contradiction
  | prague p =>
      obtain ⟨next', hnext, hbounded⟩ := PragueBounded.step ⟨p, hs, h p hs⟩ hstep
      cases Controller.prague.inj (hp'.symm.trans hnext)
      exact hbounded

theorem estimatesFractions_of_create {settings : Settings} {start : Session}
    (hvalid : settings.validate = .ok ()) (hcreate : create settings = .ok start) :
    start.EstimatesFractions := by
  intro p hp
  cases halgorithm : settings.algorithm with
  | reno =>
      cases Except.ok.inj (hcreate.symm.trans (create_reno hvalid halgorithm))
      cases hp
  | prague =>
      obtain ⟨_, hstart, p', hp', hbounded⟩ := pragueBounded_of_create hvalid halgorithm
      cases Except.ok.inj (hcreate.symm.trans hstart)
      cases Controller.prague.inj (hp.symm.trans hp')
      exact hbounded

end Session

structure Prague.EstimateIsFraction (p : Prague) : Prop where
  alpha : IsFraction p.alpha
  gain : IsFraction p.gain
  last : ∀ estimate, p.lastEstimate = some estimate → IsFraction estimate.alpha

theorem Prague.Bounded.isFraction {p : Prague} (h : p.Bounded) : p.EstimateIsFraction :=
  ⟨isFraction_of_inUnit h.alpha_inUnit, isFraction_of_inUnit h.gain_inUnit,
    fun estimate hestimate => isFraction_of_inUnit (h.last_inUnit estimate hestimate)⟩

/-- After any calls of the operations, and in any run of a session, the estimate
and the gain are fractions. An update keeps the gain, computes the estimate by its
formula with every operation rounded to the nearest double, and hands out what it
computed. -/
theorem estimate_isFraction :
    (∀ calls p, Prague.initial.calls? calls = some p → p.EstimateIsFraction) ∧
    (∀ settings, settings.validate = .ok () → settings.algorithm = .prague →
      ∃ start, Session.create settings = .ok start ∧
        ∀ steps packets reached, start.run? steps = some (packets, reached) →
          ∃ p, reached.controller = .prague p ∧ p.EstimateIsFraction) ∧
    (∀ (e : Estimator) (marked acked : UInt32), IsFraction e.alpha → IsFraction e.gain →
      ∃ a g f, Denotes e.alpha a ∧ Denotes e.gain g ∧
        Denotes (Estimator.fraction marked acked) f ∧
        f = (if acked = 0 then 0 else min (nearest (marked.toNat / acked.toNat)) 1) ∧
        Denotes (e.update marked acked).2.alpha
          (nearest (nearest (nearest (1 - g) * a) + nearest (g * f))) ∧
        (e.update marked acked).2.gain = e.gain ∧
        (e.update marked acked).1 = ⟨acked, marked, (e.update marked acked).2.alpha⟩) := by
  refine ⟨?_, ?_, ?_⟩
  · intro calls p hcalls
    exact (Prague.bounded_initial.calls hcalls).isFraction
  · intro settings hvalid halgorithm
    obtain ⟨start, hcreate, hstart⟩ := Session.pragueBounded_of_create hvalid halgorithm
    refine ⟨start, hcreate, ?_⟩
    intro steps packets reached hrun
    have hkeeps (s : Session) (step : Step) (packet : Option ControlPacket) (next : Session)
        (h : s.PragueBounded) (hstep : s.step? step = some (packet, next)) :
        next.PragueBounded := h.step hstep
    obtain ⟨p, hp, hbounded⟩ := Session.run?_keeps hkeeps hrun hstart
    exact ⟨p, hp, hbounded.isFraction⟩
  · intro e marked acked halpha hgain
    obtain ⟨a, ha, ha'⟩ := inUnit_iff.mp halpha.inUnit
    obtain ⟨g, hg, hg'⟩ := inUnit_iff.mp hgain.inUnit
    exact ⟨a, g, _, ha, hg, Estimator.denotes_fraction marked acked, rfl,
      Estimator.denotes_advance ha hg ha' hg' marked acked, rfl, rfl⟩

def awkwardCalls : List PragueCall :=
  [.setAlpha (0.0 / 0.0), .setGain (1.0 / 0.0), .setAlpha (-0.0), .setGain 0.5,
    .init (.initial 1448 14480),
    .acknowledge (.initial 1448 14480) ⟨1, .threeMillis, 2896, 1448⟩,
    .setGain 1.0, .signal (.initial 1448 14480) .loss]

def markedHalf : List Step := [.aceOption ⟨724⟩, .acknowledge 1 .zero 1448, .signal .marked]

theorem estimate_isFraction_awkwardCalls :
    ∃ p start reached p', Prague.initial.calls? awkwardCalls = some p ∧
      p.alpha.toBits = (0.5 : Float).toBits ∧ p.gain.toBits = (0.5 : Float).toBits ∧
      p.EstimateIsFraction ∧
      Settings.default.validate = .ok () ∧ Settings.default.algorithm = .prague ∧
      Session.create .default = .ok start ∧ start.run? markedHalf = some ([], reached) ∧
      reached.controller = .prague p' ∧ p'.EstimateIsFraction ∧
      p'.alpha.toBits = (0.96875 : Float).toBits ∧
      ∃ q, Denotes (p'.estimator.update 0 1448).2.alpha q := by
  obtain ⟨hcalls, hruns, hupdate⟩ := estimate_isFraction
  have hvalid : Settings.default.validate = .ok () := by
    rw [Settings.validate_eq_ok_iff]
    decide +kernel
  obtain ⟨start, hcreate, hrun⟩ := hruns .default hvalid rfl
  have hstart := Except.ok.inj (hcreate.symm.trans (Session.create_prague hvalid rfl))
  subst hstart
  obtain ⟨p', hp', hfraction⟩ := hrun markedHalf _ _ rfl
  cases Controller.prague.inj hp'
  obtain ⟨a, g, f, _, _, _, _, hnext, _⟩ := hupdate _ 0 1448 hfraction.alpha hfraction.gain
  refine ⟨_, _, _, _, rfl, ?_, ?_, hcalls awkwardCalls _ rfl, hvalid, rfl, hcreate, rfl, rfl,
    hfraction, ?_, _, hnext⟩
  · decide +kernel
  · decide +kernel
  · decide +kernel

end ScalableCongestion
