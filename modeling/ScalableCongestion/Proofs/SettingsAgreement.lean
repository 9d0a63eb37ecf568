import ScalableCongestion.Proofs.LockedSettings
import ScalableCongestion.Proofs.WindowFloor
import ScalableCongestion.Settings.Builder

/-! The checks of settings agree. The range of the fractions is checked when
settings are validated and once more by the controller that takes them; both ask
for the gain first and say the same. So what is accepted starts a session, and
what is refused is refused for one reason, wherever it is handed in. -/
namespace ScalableCongestion

/-- A check whose faults are told by a relation: it fails just with those faults, if it
passes whenever there are none. -/
theorem eq_error_iff_of_told {answer : Except Fault α} {told : Fault → String → Prop}
    {fault : Fault} {text : String}
    (sound : ∀ fault text, told fault text → answer = .error fault ∧ fault.message = text)
    (complete : (∃ value, answer = .ok value) ∨ ∃ fault text, told fault text) :
    (answer = .error fault ∧ fault.message = text) ↔ told fault text := by
  refine ⟨?_, sound fault text⟩
  rintro ⟨herror, rfl⟩
  rcases complete with ⟨value, hok⟩ | ⟨fault', text, htold⟩
  · cases herror.symm.trans hok
  · obtain ⟨herror', hmessage⟩ := sound fault' text htold
    cases herror.symm.trans herror'
    rwa [hmessage]

namespace Settings

structure Fractions (s : Settings) : Prop where
  gain : IsFraction s.gain
  initialAlpha : IsFraction s.initialAlpha

/-- Settings with a fraction out of range: the fault, and what it says. The
estimate is spoken of only if nothing is wrong with the gain. -/
inductive FractionRefused (s : Settings) : Fault → String → Prop where
  | gain (outside : ¬IsFraction s.gain) :
    FractionRefused s (.settings (.outsideUnit .gain s.gain))
      ("Configuration error: gain must be within [0, 1], got " ++ Decimal.messageText s.gain)
  | initialAlpha (ofGain : IsFraction s.gain) (outside : ¬IsFraction s.initialAlpha) :
    FractionRefused s (.settings (.outsideUnit .initialAlpha s.initialAlpha))
      ("Configuration error: initial_alpha must be within [0, 1], got " ++
        Decimal.messageText s.initialAlpha)

/-- What is wrong with settings that are refused. The counts are looked at behind
the fractions. -/
inductive Refused (s : Settings) : Fault → String → Prop where
  | fraction (refused : s.FractionRefused fault text) : Refused s fault text
  | segmentSize (fractions : s.Fractions) (zero : s.segmentSize = 0) :
    Refused s (.settings (.zeroCount .segmentSize))
      "Configuration error: segment_size must be greater than 0"
  | initialSegments (fractions : s.Fractions) (size : s.segmentSize ≠ 0)
    (zero : s.initialSegments = 0) :
    Refused s (.settings (.zeroCount .initialSegments))
      "Configuration error: initial_cwnd_segments must be greater than 0"

def choices (s : Settings) : List Choice :=
  [.algorithm s.algorithm, .gain s.gain, .initialAlpha s.initialAlpha, .useEct0 s.useEct0,
    .segmentSize s.segmentSize, .initialSegments s.initialSegments]

theorem setAll_choices (s start : Settings) : start.setAll s.choices = s := rfl

variable {s : Settings} {fault : Fault} {text : String}

theorem inUnit_eq_false {x : Float} (h : ¬IsFraction x) : inUnit x = false :=
  Bool.eq_false_iff.mpr fun hx => h (isFraction_of_inUnit hx)

theorem fractions_or_refused (s : Settings) :
    s.Fractions ∨ ∃ fault text, s.FractionRefused fault text := by
  by_cases hgain : IsFraction s.gain
  · by_cases halpha : IsFraction s.initialAlpha
    · exact .inl ⟨hgain, halpha⟩
    · exact .inr ⟨_, _, .initialAlpha hgain halpha⟩
  · exact .inr ⟨_, _, .gain hgain⟩

theorem valid_or_refused (s : Settings) :
    (∃ checked, s.validate = .ok checked) ∨ ∃ fault text, s.Refused fault text := by
  rcases s.fractions_or_refused with hfractions | ⟨fault, text, h⟩
  · by_cases hsize : s.segmentSize = 0
    · exact .inr ⟨_, _, .segmentSize hfractions hsize⟩
    · by_cases hsegments : s.initialSegments = 0
      · exact .inr ⟨_, _, .initialSegments hfractions hsize hsegments⟩
      · exact .inl ⟨(), s.validate_eq_ok_iff.mpr
          ⟨hfractions.gain.inUnit, hfractions.initialAlpha.inUnit, hsize, hsegments⟩⟩
  · exact .inr ⟨_, _, .fraction h⟩

theorem FractionRefused.message_eq (h : s.FractionRefused fault text) : fault.message = text := by
  cases h with
  | gain => exact String.append_assoc.symm
  | initialAlpha => exact String.append_assoc.symm

theorem Refused.message_eq (h : s.Refused fault text) : fault.message = text := by
  cases h with
  | fraction refused => exact refused.message_eq
  | segmentSize => rfl
  | initialSegments => rfl

/-! ## The check of the settings -/

theorem validate_of_fault? {cause : SettingsFault} (h : s.fault? = some cause) :
    s.validate = .error (.settings cause) := by
  rw [validate, h]

theorem FractionRefused.validate_eq (h : s.FractionRefused fault text) :
    s.validate = .error fault := by
  cases h with
  | gain outside =>
      apply validate_of_fault?
      rw [fault?, inUnit_eq_false outside]
      rfl
  | initialAlpha ofGain outside =>
      apply validate_of_fault?
      rw [fault?, ofGain.inUnit, inUnit_eq_false outside]
      rfl

theorem Fractions.fault?_eq (h : s.Fractions) :
    s.fault? =
      if s.segmentSize = 0 then some (.zeroCount .segmentSize)
      else if s.initialSegments = 0 then some (.zeroCount .initialSegments)
      else none := by
  rw [fault?, h.gain.inUnit, h.initialAlpha.inUnit]
  rfl

theorem Refused.validate_eq (h : s.Refused fault text) : s.validate = .error fault := by
  cases h with
  | fraction refused => exact refused.validate_eq
  | segmentSize fractions zero =>
      apply validate_of_fault?
      rw [fractions.fault?_eq, if_pos zero]
  | initialSegments fractions size zero =>
      apply validate_of_fault?
      rw [fractions.fault?_eq, if_neg size, if_pos zero]

theorem build_eq {choices : List Choice} (h : default.setAll choices = s) :
    build choices = s.validate.map fun _ => s := by
  rw [build, validated, h]

/-! ## The controller and the session -/

theorem FractionRefused.create_eq (halgorithm : s.algorithm = .prague)
    (h : s.FractionRefused fault text) : Controller.create s = .error fault := by
  simp only [Controller.create, halgorithm, Prague.setGain, Prague.setAlpha]
  cases h with
  | gain outside =>
      rw [Prague.set_outside rfl outside]
      rfl
  | initialAlpha ofGain outside =>
      rw [Prague.set_accepted rfl ofGain]
      dsimp only
      rw [Prague.set_outside rfl outside]
      rfl

theorem validate_eq_error_iff :
    (s.validate = .error fault ∧ fault.message = text) ↔ s.Refused fault text :=
  eq_error_iff_of_told (fun _ _ h => ⟨h.validate_eq, h.message_eq⟩) s.valid_or_refused

theorem create_eq_error_iff (halgorithm : s.algorithm = .prague) :
    (Controller.create s = .error fault ∧ fault.message = text) ↔
      s.FractionRefused fault text := by
  apply eq_error_iff_of_told (fun _ _ h => ⟨h.create_eq halgorithm, h.message_eq⟩)
  refine s.fractions_or_refused.imp_left fun hfractions => ?_
  exact ⟨_, Controller.create_prague halgorithm hfractions.gain.inUnit
    hfractions.initialAlpha.inUnit⟩

theorem exists_fractionRefused_iff :
    (∃ fault text, s.FractionRefused fault text) ↔
      ¬IsFraction s.gain ∨ ¬IsFraction s.initialAlpha := by
  constructor
  · rintro ⟨_, _, h⟩
    cases h with
    | gain outside => exact .inl outside
    | initialAlpha _ outside => exact .inr outside
  · intro houtside
    refine (s.fractions_or_refused).resolve_left fun hfractions => ?_
    exact houtside.elim (· hfractions.gain) (· hfractions.initialAlpha)

end Settings

namespace Session

structure Started (s : Settings) (start : Session) : Prop where
  cwnd : start.connection.cwnd.toNat =
    min (s.segmentSize.toNat * s.initialSegments.toNat) (2 ^ 32 - 1)
  segmentSize_le : s.segmentSize.toNat ≤ start.connection.cwnd.toNat
  ssthresh : start.connection.ssthresh.toNat = 2 ^ 32 - 1
  reno : s.algorithm = .reno → start.controller = .reno .initial
  prague : s.algorithm = .prague → ∃ p, start.controller = .prague p ∧ p.initialized = true ∧
    p.gain = s.gain ∧ p.alpha = s.initialAlpha ∧
    start.connection.codepoint = if s.useEct0 then .ect0 else .ect1

variable {s : Settings} {fault : Fault} {start : Session}

theorem create_eq_error_iff : create s = .error fault ↔ s.validate = .error fault := by
  cases hvalidate : s.validate with
  | error fault' =>
      have hcreate : create s = .error fault' := by
        rw [create, hvalidate]
        rfl
      rw [hcreate]
      simp only [Except.error.injEq]
  | ok checked =>
      obtain ⟨_, _, _, _, hcreate⟩ := create_fresh hvalidate
      rw [hcreate]
      simp only [reduceCtorEq]

theorem started_of_create (h : create s = .ok start) : Started s start := by
  have hvalid := validate_of_create h
  have hfloor := (Settings.segmentSize_le_initialCwnd hvalid).2
  have hcwnd : s.initialCwnd.toNat = min (s.segmentSize.toNat * s.initialSegments.toNat)
      (2 ^ 32 - 1) := toNat_satMul _ _
  cases halgorithm : s.algorithm with
  | reno =>
      cases h.symm.trans (create_reno hvalid halgorithm)
      refine ⟨hcwnd, hfloor, rfl, fun _ => rfl, ?_⟩
      rw [halgorithm]
      exact nofun
  | prague =>
      cases h.symm.trans (create_prague hvalid halgorithm)
      refine ⟨hcwnd, hfloor, rfl, ?_, fun _ => ⟨_, rfl, rfl, rfl, rfl, ?_⟩⟩
      · rw [halgorithm]
        exact nofun
      · cases s.useEct0 <;> rfl

end Session

namespace Settings

theorem exists_controller (s : Settings) (h : s.algorithm = .reno ∨ s.validate = .ok ()) :
    ∃ controller, Controller.create s = .ok controller := by
  cases halgorithm : s.algorithm with
  | reno => exact ⟨_, Controller.create_reno halgorithm⟩
  | prague =>
      have hvalid := h.resolve_left (by rw [halgorithm]; decide)
      obtain ⟨hgain, halpha, _⟩ := s.validate_eq_ok_iff.mp hvalid
      exact ⟨_, Controller.create_prague halgorithm hgain halpha⟩

/-- All checks agree. A session is refused just if its settings are, for the same
fault, and so are settings put together from any choices. No controller is refused
to settings that passed, and none ever for Reno; Prague's is refused just for a
fraction, of which it says what the check of the settings says. A session that
starts has the windows and fractions of its settings. -/
theorem checks_agree (s : Settings) :
    (∀ fault text,
      (s.validate = .error fault ∧ fault.message = text) ↔ s.Refused fault text) ∧
    (∀ fault, Session.create s = .error fault ↔ s.validate = .error fault) ∧
    (∃ choices, default.setAll choices = s) ∧
    (∀ choices, default.setAll choices = s →
      (∀ fault, build choices = .error fault ↔ s.validate = .error fault) ∧
      (s.validate = .ok () → build choices = .ok s)) ∧
    (s.validate = .ok () → ∃ controller, Controller.create s = .ok controller) ∧
    (s.algorithm = .reno → ∃ controller, Controller.create s = .ok controller) ∧
    (s.algorithm = .prague →
      ((∃ fault, Controller.create s = .error fault) ↔
        ¬IsFraction s.gain ∨ ¬IsFraction s.initialAlpha) ∧
      (∀ fault text,
        (Controller.create s = .error fault ∧ fault.message = text) ↔
          s.FractionRefused fault text) ∧
      ∀ fault, Controller.create s = .error fault → s.validate = .error fault) ∧
    ∀ start, Session.create s = .ok start → Session.Started s start := by
  refine ⟨fun _ _ => validate_eq_error_iff, fun _ => Session.create_eq_error_iff,
    ⟨s.choices, s.setAll_choices _⟩, ?choices, fun hvalid => s.exists_controller (.inr hvalid),
    fun hreno => s.exists_controller (.inl hreno), ?prague, fun _ => Session.started_of_create⟩
  case choices =>
    intro choices hchoices
    rw [build_eq hchoices]
    cases hvalidate : s.validate with
    | error fault => simp [Except.map]
    | ok checked => simp [Except.map]
  case prague =>
    intro halgorithm
    have hrefused {fault : Fault} (h : Controller.create s = .error fault) :
        s.FractionRefused fault fault.message := (create_eq_error_iff halgorithm).mp ⟨h, rfl⟩
    refine ⟨?_, fun _ _ => create_eq_error_iff halgorithm, fun _ h => (hrefused h).validate_eq⟩
    rw [← exists_fractionRefused_iff]
    refine exists_congr fun fault => ⟨fun h => ⟨_, hrefused h⟩, ?_⟩
    rintro ⟨text, h⟩
    exact h.create_eq halgorithm

def allWrong (algorithm : Algorithm) : Settings := ⟨algorithm, 0.0 / 0.0, 2.0, false, 0, 10⟩

def barelyRight : Settings := ⟨.prague, -0.0, 1.0, true, 4294967295, 2⟩

/-- Everything wrong at once, of which Reno reads nothing; and settings that pass. -/
theorem checks_agree_allWrong :
    (∃ fault, Session.create (allWrong .prague) = .error fault ∧
      build (allWrong .prague).choices = .error fault ∧
      Controller.create (allWrong .prague) = .error fault ∧
      fault.message = "Configuration error: gain must be within [0, 1], got NaN") ∧
    (∃ controller, Controller.create (allWrong .reno) = .ok controller) ∧
    ∃ start p, Session.create barelyRight = .ok start ∧ start.controller = .prague p ∧
      p.gain = -0.0 ∧ start.connection.cwnd.toNat = 4294967295 ∧
      start.connection.codepoint = .ect0 := by
  refine ⟨?wrong, ?reno, ?right⟩
  case wrong =>
    obtain ⟨hrefused, hcreate, _, hbuild, _, _, hprague, _⟩ := checks_agree (allWrong .prague)
    have hgain : ¬IsFraction (allWrong .prague).gain := fun h => absurd h.number (by decide +kernel)
    obtain ⟨_, hcontroller, hsame⟩ := hprague rfl
    obtain ⟨hfault, hmessage⟩ := (hcontroller _ _).mpr (.gain hgain)
    have hvalidate := hsame _ hfault
    have hbuilt := ((hbuild _ (setAll_choices _ _)).1 _).mpr hvalidate
    refine ⟨_, (hcreate _).mpr hvalidate, hbuilt, hfault, ?_⟩
    rw [hmessage]
    decide +kernel
  case reno =>
    obtain ⟨_, _, _, _, _, hreno, _⟩ := checks_agree (allWrong .reno)
    exact hreno rfl
  case right =>
    obtain ⟨_, _, _, _, _, _, _, hstarted⟩ := checks_agree barelyRight
    have hvalid : barelyRight.validate = .ok () := by
      rw [validate_eq_ok_iff]
      decide +kernel
    have hcreate := Session.create_eq_startPrague hvalid rfl
    have hstart := hstarted _ hcreate
    obtain ⟨p, hp, _, hgain, _, hcodepoint⟩ := hstart.prague rfl
    exact ⟨_, p, hcreate, hp, hgain, hstart.cwnd, hcodepoint⟩

end Settings

end ScalableCongestion
