import ScalableCongestion.Control.Reno
import ScalableCongestion.Settings.Basic

/-! The controller of a connection: one of the two algorithms with its state. -/
namespace ScalableCongestion

inductive Controller where
  | reno (state : Reno)
  | prague (state : Prague)

instance : Inhabited Controller := ⟨.reno default⟩

namespace Controller

def create (s : Settings) : Except Fault Controller :=
  match s.algorithm with
  | .reno => .ok (.reno .initial)
  | .prague => do
    let (answer, p) := Prague.initial.setGain s.gain
    answer
    let (answer, p) := p.setAlpha s.initialAlpha
    answer
    return .prague (p.setUseEct0 s.useEct0)

def algorithm : Controller → Algorithm
  | reno _ => .reno
  | prague _ => .prague

def prague? : Controller → Option Prague
  | reno _ => none
  | prague p => some p

def init (k : Controller) (c : Connection) : Controller × Connection :=
  match k with
  | reno r => (reno r, c)
  | prague p =>
    let (p, c) := p.init c
    (prague p, c)

def acknowledge? (k : Controller) (c : Connection) (a : Acknowledgement) :
    Option (Controller × Connection) :=
  match k with
  | reno r =>
    let (r, c) := r.acknowledge c a.segments
    some (reno r, c)
  | prague p => (p.acknowledge? c a).map fun (p, c) => (prague p, c)

def signal (k : Controller) (c : Connection) (s : Signal) :
    Option ControlPacket × Controller × Connection :=
  match k with
  | reno r =>
    let (r, c) := r.signal c s
    (none, reno r, c)
  | prague p =>
    let (packet, p, c) := p.signal c s
    (packet, prague p, c)

/-- Both algorithms halve the data in flight when a reduction starts. -/
def stagedThreshold (_ : Controller) (c : Connection) (bytesInFlight : UInt32) : UInt32 :=
  c.stagedThreshold bytesInFlight

def alpha? (k : Controller) : Option Float := k.prague?.map Prague.alpha

def inFallback (k : Controller) : Bool := k.prague?.any Prague.inFallback

end Controller

structure Summary where
  algorithm : Algorithm
  cwnd : UInt32
  ssthresh : UInt32
  phase : Phase
  alpha : Option Float
  inFallback : Bool

def Controller.summary (k : Controller) (c : Connection) : Summary where
  algorithm := k.algorithm
  cwnd := c.cwnd
  ssthresh := c.ssthresh
  phase := c.phase
  alpha := k.alpha?
  inFallback := k.inFallback

end ScalableCongestion
