import ScalableCongestion.Delay.ClassicQueue
import ScalableCongestion.Fault
import ScalableCongestion.Marking.Echo
import ScalableCongestion.Marking.Estimator

/-! Prague: every acknowledgement folds the reported marks into an estimate of
how congested the path is. A loss during a reduction that is under way cuts the
window in proportion to the estimate, any other loss halves it. Marks on
arriving segments are echoed; only while a classic queue is suspected do they
halve the window as a loss does. -/
namespace ScalableCongestion

structure Prague where
  estimator : Estimator
  queue : ClassicQueue
  echo : Echo
  useEct0 : Bool
  initialized : Bool
  lastEstimate : Option Estimate

structure Acknowledgement where
  segments : UInt32
  rtt : Duration
  ceBytes : UInt32
  bytes : UInt32
deriving DecidableEq, Inhabited

/-- Whether a double lies between zero and one; no NaN does. -/
def inUnit (x : Float) : Bool := decide (0.0 ≤ x) && decide (x ≤ 1.0)

namespace Prague

def initial : Prague where
  estimator := .initial
  queue := .initial
  echo := .initial
  useEct0 := false
  initialized := false
  lastEstimate := none

instance : Inhabited Prague := ⟨initial⟩

def alpha (p : Prague) : Float := p.estimator.alpha

def gain (p : Prague) : Float := p.estimator.gain

def inFallback (p : Prague) : Bool := p.queue.suspected

def adjusted (p : Prague) : UnitSetting → Float → Prague
  | .gain, gain => { p with estimator := { p.estimator with gain } }
  | .initialAlpha, alpha => { p with estimator := { p.estimator with alpha } }

/-- Sets a fraction, which can be done until the controller is initialized. The
answer comes with the controller as the call leaves it. -/
def set (p : Prague) (setting : UnitSetting) (value : Float) : Except Fault Unit × Prague :=
  if p.initialized then (.error (.locked setting), p)
  else if inUnit value then (.ok (), p.adjusted setting value)
  else (.error (.settings (.outsideUnit setting value)), p)

def setAlpha (p : Prague) (value : Float) : Except Fault Unit × Prague :=
  p.set .initialAlpha value

def setGain (p : Prague) (value : Float) : Except Fault Unit × Prague := p.set .gain value

def setUseEct0 (p : Prague) (useEct0 : Bool) : Prague := { p with useEct0 }

def init (p : Prague) (c : Connection) : Prague × Connection :=
  ({ p with initialized := true },
    { c with ecnEnabled := true, ecnMode := .dctcp, codepoint := .forL4S p.useEct0 })

/-- The share of the window that a loss during a reduction leaves. -/
def lossFactor (alpha : Float) : Float := (2.0 + alpha) / 4.0

def lossTarget (alpha : Float) (cwnd : UInt32) : UInt32 :=
  (cwnd.toFloat * lossFactor alpha).toUInt32

def lose (p : Prague) (c : Connection) : Connection :=
  if c.phase = .cwr then c.reduceTo (lossTarget p.alpha c.cwnd) else c.halve

/-- The bytes that one acknowledgement adds to the window: a segment's share of
it, and at least one. -/
def growth (segmentSize cwnd : UInt32) : UInt32 :=
  let segment := segmentSize.toFloat
  let share := segment * segment / (max cwnd 1).toFloat
  (if share < 1.0 then 1.0 else share).toUInt32

/-- The estimate follows every acknowledgement outside recovery, the window only
those in normal operation. `none` if the queue threshold is no duration. -/
def acknowledge? (p : Prague) (c : Connection) (a : Acknowledgement) :
    Option (Prague × Connection) :=
  if c.phase.isRecovering then some (p, c)
  else
    (p.queue.sample? a.rtt c.srtt).map fun (_, queue) =>
      let (estimate, estimator) := p.estimator.update a.ceBytes a.bytes
      ({ p with queue, estimator, lastEstimate := some estimate },
        if c.phase = .normal then c.grow (growth c.segmentSize c.cwnd) else c)

def observe (p : Prague) (c : Connection) (marked : Bool) :
    Option ControlPacket × Prague × Connection :=
  let (packet, echo) := p.echo.observe marked c.rcvNxt
  let ecnState :=
    if marked then .ceReceived
    else match c.ecnState with
      | .ceReceived => .idle
      | .sendingEce => .idle
      | other => other
  (packet, { p with echo }, { c with ecnState })

def signal (p : Prague) (c : Connection) : Signal → Option ControlPacket × Prague × Connection
  | .loss => (none, p, p.lose c)
  | .marked => if p.inFallback then (none, p, c.halve) else p.observe c true
  | .unmarked => p.observe c false
  | .delayedAck => (none, { p with echo := p.echo.reserve true }, c)
  | .immediateAck => (none, { p with echo := p.echo.reserve false }, c)
  | _ => (none, p, c)

end Prague

end ScalableCongestion
