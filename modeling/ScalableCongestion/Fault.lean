import ScalableCongestion.Decimal.Layout

/-! What can go wrong, as causes. The wording of every cause is in its
`message`, and nowhere else. -/
namespace ScalableCongestion

inductive OptionFault where
  | unexpectedKind (kind : UInt8)
  | unexpectedLength (length : UInt8)
  | truncated (available : Nat)
deriving DecidableEq, Repr

def OptionFault.message : OptionFault → String
  | unexpectedKind kind => s!"unexpected option kind {kind}"
  | unexpectedLength length => s!"unexpected option length {length}"
  | truncated available => s!"option truncated: {available} bytes available"

inductive UnitSetting where
  | gain
  | initialAlpha
deriving DecidableEq, Repr

def UnitSetting.name : UnitSetting → String
  | gain => "gain"
  | initialAlpha => "initial_alpha"

inductive CountSetting where
  | segmentSize
  | initialSegments
deriving DecidableEq, Repr

def CountSetting.name : CountSetting → String
  | segmentSize => "segment_size"
  | initialSegments => "initial_cwnd_segments"

inductive SettingsFault where
  | outsideUnit (setting : UnitSetting) (value : Float)
  | zeroCount (setting : CountSetting)
  | unknownAlgorithm (name : String)
  | unreadable
  | unwritable
  /-- a value that was found does not convert to the type of its setting -/
  | unconvertible
  /-- a cause described in words by the caller -/
  | described (text : String)

def SettingsFault.message : SettingsFault → String
  | outsideUnit setting value =>
    s!"{setting.name} must be within [0, 1], got " ++ Decimal.messageText value
  | zeroCount setting => s!"{setting.name} must be greater than 0"
  | unknownAlgorithm name => s!"Unknown congestion algorithm: {name}"
  | unreadable => "Failed to read config file"
  | unwritable => "Failed to write config file"
  | unconvertible => "invalid type of a value"
  | described text => text

inductive Severity where
  | low
  | medium
  | high
  | critical
deriving DecidableEq, Repr

def Severity.rank : Severity → Nat
  | low => 0
  | medium => 1
  | high => 2
  | critical => 3

def Severity.atLeast (a b : Severity) : Bool := b.rank ≤ a.rank

inductive Fault where
  | malformedOption (cause : OptionFault)
  /-- the setting is fixed once the controller is initialized -/
  | locked (setting : UnitSetting)
  | settings (cause : SettingsFault)

namespace Fault

def message : Fault → String
  | malformedOption cause => "Malformed ACE option: " ++ cause.message
  | locked setting =>
    s!"Configuration locked: {setting.name} cannot change once the controller is initialized"
  | settings cause => "Configuration error: " ++ cause.message

/-- A locked setting is a mistake of the caller; anything else can be skipped. -/
def recoverable : Fault → Bool
  | locked _ => false
  | _ => true

def severity : Fault → Severity
  | malformedOption _ => .low
  | settings _ => .medium
  | locked _ => .critical

end Fault

end ScalableCongestion
