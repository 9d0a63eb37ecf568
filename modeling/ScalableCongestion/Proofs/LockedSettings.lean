import ScalableCongestion.Proofs.Control.Window
import ScalableCongestion.Proofs.EstimateRange

/-! When the settings of a controller can change. The two fractions are taken
until the first initialization and refused for good after it, whatever their
value. The choice of a codepoint is always taken, but only an initialization
hands it to the connection. -/
namespace ScalableCongestion

namespace PragueCall

def set : UnitSetting → Float → PragueCall
  | .gain, value => .setGain value
  | .initialAlpha, value => .setAlpha value

def isInit : PragueCall → Bool
  | .init _ => true
  | _ => false

def isAcknowledge : PragueCall → Bool
  | .acknowledge _ _ => true
  | _ => false

def useEct0? : PragueCall → Option Bool
  | .setUseEct0 useEct0 => some useEct0
  | _ => none

theorem isInit_set (setting : UnitSetting) (value : Float) :
    (set setting value).isInit = false := by
  cases setting <;> rfl

theorem useEct0?_set (setting : UnitSetting) (value : Float) :
    (set setting value).useEct0? = none := by
  cases setting <;> rfl

end PragueCall

/-- The last choice that calls make of a codepoint, `start` if they make none. -/
def lastUseEct0 (start : Bool) (calls : List PragueCall) : Bool :=
  (calls.filterMap PragueCall.useEct0?).getLastD start

theorem lastUseEct0_cons (start : Bool) (call : PragueCall) (calls : List PragueCall) :
    lastUseEct0 start (call :: calls) = lastUseEct0 (call.useEct0?.getD start) calls := by
  unfold lastUseEct0
  cases hchoice : call.useEct0? with
  | none =>
      rw [List.filterMap_cons_none hchoice]
      rfl
  | some useEct0 =>
      rw [List.filterMap_cons_some hchoice, List.getLastD_cons]
      rfl

namespace Prague

section Set

variable {p : Prague} {setting : UnitSetting} {value : Float}

theorem set_locked (h : p.initialized = true) :
    p.set setting value = (.error (.locked setting), p) := by
  rw [set, if_pos h]

theorem set_accepted (h : p.initialized = false) (hvalue : IsFraction value) :
    p.set setting value = (.ok (), p.adjusted setting value) := by
  rw [set, if_neg (Bool.eq_false_iff.mp h), if_pos hvalue.inUnit]

theorem set_outside (h : p.initialized = false) (hvalue : ¬ IsFraction value) :
    p.set setting value = (.error (.settings (.outsideUnit setting value)), p) := by
  rw [set, if_neg (Bool.eq_false_iff.mp h),
    if_neg fun hunit => hvalue (isFraction_of_inUnit hunit)]

theorem set_eq_ok_iff {next : Prague} :
    p.set setting value = (.ok (), next) ↔
      p.initialized = false ∧ IsFraction value ∧ next = p.adjusted setting value := by
  cases h : p.initialized with
  | true => simp [set_locked h]
  | false =>
      by_cases hvalue : IsFraction value
      · simp [set_accepted h hvalue, hvalue, eq_comm]
      · simp [set_outside h hvalue, hvalue]

theorem set_eq_error_iff {fault : Fault} :
    (p.set setting value).1 = .error fault ↔
      (p.initialized = true ∧ fault = .locked setting) ∨
        (p.initialized = false ∧ ¬ IsFraction value ∧
          fault = .settings (.outsideUnit setting value)) := by
  cases h : p.initialized with
  | true => simp [set_locked h, eq_comm]
  | false =>
      by_cases hvalue : IsFraction value
      · simp [set_accepted h hvalue, hvalue]
      · simp [set_outside h hvalue, hvalue, eq_comm]

theorem set_refused {fault : Fault} (h : (p.set setting value).1 = .error fault) :
    (p.set setting value).2 = p := by
  rcases set_eq_error_iff.mp h with ⟨hlocked, _⟩ | ⟨hfree, houtside, _⟩
  · rw [set_locked hlocked]
  · rw [set_outside hfree houtside]

end Set

theorem adjusted_initialized (p : Prague) (setting : UnitSetting) (value : Float) :
    (p.adjusted setting value).initialized = p.initialized := by
  cases setting <;> rfl

theorem adjusted_useEct0 (p : Prague) (setting : UnitSetting) (value : Float) :
    (p.adjusted setting value).useEct0 = p.useEct0 := by
  cases setting <;> rfl

/-- What calls that led from `p` and `c` to `p'` and `c'` can have changed. -/
structure Served (p : Prague) (c : Connection) (calls : List PragueCall) (p' : Prague)
    (c' : Connection) : Prop where
  initialized : p'.initialized = (p.initialized || calls.any PragueCall.isInit)
  useEct0 : p'.useEct0 = lastUseEct0 p.useEct0 calls
  codepoint : calls.any PragueCall.isInit = false → c'.codepoint = c.codepoint
  gain : p.initialized = true → p'.gain = p.gain
  alpha : p.initialized = true → calls.any PragueCall.isAcknowledge = false → p'.alpha = p.alpha

section Calls

variable {p p' : Prague} {c c' : Connection}

theorem Served.nil (p : Prague) (c : Connection) : p.Served c [] p c where
  initialized := (Bool.or_false _).symm
  useEct0 := rfl
  codepoint _ := rfl
  gain _ := rfl
  alpha _ _ := rfl

theorem Served.locked {calls : List PragueCall} (h : p.Served c calls p' c')
    (hlocked : p.initialized = true) : p'.initialized = true := by
  rw [h.initialized, hlocked, Bool.true_or]

theorem Served.cons {next : Prague} {d : Connection} {call : PragueCall}
    {calls : List PragueCall} (h : p.Served c [call] next d) (hrest : next.Served d calls p' c') :
    p.Served c (call :: calls) p' c' where
  initialized := by
    rw [hrest.initialized, h.initialized, Bool.or_assoc, ← List.any_append]
    rfl
  useEct0 := by
    rw [hrest.useEct0, h.useEct0, lastUseEct0_cons, lastUseEct0_cons]
    rfl
  codepoint hnone := by
    rw [List.any_cons, Bool.or_eq_false_iff] at hnone
    rw [hrest.codepoint hnone.2, h.codepoint (by simp [hnone.1])]
  gain hlocked := by
    rw [hrest.gain (h.locked hlocked), h.gain hlocked]
  alpha hlocked hnone := by
    rw [List.any_cons, Bool.or_eq_false_iff] at hnone
    rw [hrest.alpha (h.locked hlocked) hnone.2, h.alpha hlocked (by simp [hnone.1])]

theorem Served.idle (p : Prague) (call : PragueCall) (hinit : call.isInit = false)
    (hchoice : call.useEct0? = none) (hcodepoint : c'.codepoint = c.codepoint) :
    p.Served c [call] p c' where
  initialized := by
    rw [List.any_cons, hinit]
    exact (Bool.or_false _).symm
  useEct0 := by
    rw [lastUseEct0_cons, hchoice]
    rfl
  codepoint _ := hcodepoint
  gain _ := rfl
  alpha _ _ := rfl

theorem Served.set (p : Prague) (c : Connection) (setting : UnitSetting) (value : Float) :
    p.Served c [.set setting value] (p.set setting value).2 c := by
  have hidle : p.Served c [.set setting value] p c :=
    Served.idle p _ (PragueCall.isInit_set setting value)
      (PragueCall.useEct0?_set setting value) rfl
  cases hanswer : (p.set setting value).1 with
  | error fault =>
      rw [set_refused hanswer]
      exact hidle
  | ok _ =>
      have hresult : p.set setting value = (.ok (), (p.set setting value).2) :=
        Prod.ext hanswer rfl
      obtain ⟨hfree, _, hnext⟩ := set_eq_ok_iff.mp hresult
      have hunlocked : ¬ p.initialized = true := Bool.eq_false_iff.mp hfree
      rw [hnext]
      exact
        { initialized := (adjusted_initialized p setting value).trans hidle.initialized
          useEct0 := (adjusted_useEct0 p setting value).trans hidle.useEct0
          codepoint := hidle.codepoint
          gain := fun hlocked => absurd hlocked hunlocked
          alpha := fun hlocked => absurd hlocked hunlocked }

end Calls

end Prague

end ScalableCongestion
