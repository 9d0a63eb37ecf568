import ScalableCongestion.Session

/-! The session that settings give. Settings that pass their own check always
give one, since the controllers check no more than that. -/
namespace ScalableCongestion

namespace Settings

theorem fault?_of_validate {settings : Settings} (h : settings.validate = .ok ()) :
    settings.fault? = none := by
  unfold validate at h
  split at h
  · assumption
  · contradiction

theorem validate_eq_ok_iff (settings : Settings) :
    settings.validate = .ok () ↔
      inUnit settings.gain = true ∧ inUnit settings.initialAlpha = true ∧
        settings.segmentSize ≠ 0 ∧ settings.initialSegments ≠ 0 := by
  constructor
  · intro h
    have hnone := fault?_of_validate h
    unfold fault? at hnone
    cases hgain : inUnit settings.gain <;> simp [hgain] at hnone ⊢
    cases halpha : inUnit settings.initialAlpha <;> simp [halpha] at hnone ⊢
    by_cases hsize : settings.segmentSize = 0 <;> simp [hsize] at hnone ⊢
    by_cases hsegments : settings.initialSegments = 0 <;> simp [hsegments] at hnone ⊢
  · rintro ⟨hgain, halpha, hsize, hsegments⟩
    simp [validate, fault?, hgain, halpha, hsize, hsegments]

theorem validate_default : Settings.default.validate = .ok () := by
  rw [validate_eq_ok_iff]
  decide +kernel

end Settings

def Prague.configured (settings : Settings) : Prague :=
  { Prague.initial with
    estimator := ⟨settings.initialAlpha, settings.gain⟩
    useEct0 := settings.useEct0 }

theorem Controller.create_reno {settings : Settings} (halgorithm : settings.algorithm = .reno) :
    Controller.create settings = .ok (.reno .initial) := by
  simp only [Controller.create, halgorithm]

theorem Controller.create_prague {settings : Settings}
    (halgorithm : settings.algorithm = .prague) (hgain : inUnit settings.gain = true)
    (halpha : inUnit settings.initialAlpha = true) :
    Controller.create settings = .ok (.prague (.configured settings)) := by
  simp only [Controller.create, halgorithm, Prague.setGain, Prague.setAlpha, Prague.set, hgain,
    halpha]
  rfl

namespace Session

def fresh (controller : Controller) (connection : Connection) : Session :=
  ⟨connection, controller, .empty, .initial, []⟩

theorem create_reno {settings : Settings} (hvalid : settings.validate = .ok ())
    (halgorithm : settings.algorithm = .reno) :
    create settings = .ok (fresh (.reno .initial)
      (.initial settings.segmentSize settings.initialCwnd)) := by
  simp only [create, hvalid, Controller.create_reno halgorithm]
  rfl

theorem create_prague {settings : Settings} (hvalid : settings.validate = .ok ())
    (halgorithm : settings.algorithm = .prague) :
    create settings = .ok (fresh
      (.prague { Prague.configured settings with initialized := true })
      { Connection.initial settings.segmentSize settings.initialCwnd with
        ecnEnabled := true
        ecnMode := .dctcp
        codepoint := .forL4S settings.useEct0 }) := by
  obtain ⟨hgain, halpha, _⟩ := (settings.validate_eq_ok_iff).mp hvalid
  simp only [create, hvalid, Controller.create_prague halgorithm hgain halpha]
  rfl

def startPrague (settings : Settings) : Session :=
  fresh (.prague { Prague.configured settings with initialized := true })
    { Connection.initial settings.segmentSize settings.initialCwnd with
      ecnEnabled := true
      ecnMode := .dctcp
      codepoint := .forL4S settings.useEct0 }

theorem create_eq_startPrague {settings : Settings} (hvalid : settings.validate = .ok ())
    (halgorithm : settings.algorithm = .prague) :
    create settings = .ok (startPrague settings) :=
  create_prague hvalid halgorithm

theorem validate_of_create {settings : Settings} {start : Session}
    (h : create settings = .ok start) : settings.validate = .ok () := by
  cases hvalid : settings.validate with
  | error fault =>
      rw [create, hvalid] at h
      cases h
  | ok checked => rfl

theorem create_fresh {settings : Settings} (hvalid : settings.validate = .ok ()) :
    ∃ controller ecnEnabled ecnMode codepoint, create settings = .ok (fresh controller
      { Connection.initial settings.segmentSize settings.initialCwnd with
        ecnEnabled, ecnMode, codepoint }) := by
  cases halgorithm : settings.algorithm with
  | reno => exact ⟨_, false, .classic, .notEct, create_reno hvalid halgorithm⟩
  | prague => exact ⟨_, _, _, _, create_prague hvalid halgorithm⟩

end Session

end ScalableCongestion
