import ScalableCongestion.Connection

/-! Reno: slow start up to the threshold, then one segment per window of
acknowledged segments, and half the window after a loss. -/
namespace ScalableCongestion

structure Reno where
  /-- segments acknowledged since the window last grew -/
  counter : UInt32
deriving DecidableEq, Repr

namespace Reno

def initial : Reno := ⟨0⟩

instance : Inhabited Reno := ⟨initial⟩

/-- A connection that has not set its segment size counts in bytes. -/
def unit (c : Connection) : UInt32 := max c.segmentSize 1

def segments (c : Connection) : UInt32 := max (c.cwnd / unit c) 1

/-- Grows the window by the acknowledged segments up to the threshold; the
first result is the number of segments that were not needed. -/
def slowStart (c : Connection) (acked : UInt32) : UInt32 × Connection :=
  let wanted := satAdd c.cwnd (satMul acked (unit c))
  let window := min wanted c.ssthresh
  let used := divCeil (window - c.cwnd) (unit c)
  (satSub acked used, { c with cwnd := window })

/-- Counts acknowledged segments and grows the window by one segment for each
full window. A counter left over from a larger window pays for one segment
first. -/
def avoidCongestion (r : Reno) (c : Connection) (acked : UInt32) : Reno × Connection :=
  let window := segments c
  let (counter, grown) :=
    if window ≤ r.counter then (0, c.grow (unit c)) else (r.counter, c)
  let total := satAdd counter acked
  if window ≤ total then
    let full := total / window
    (⟨total - full * window⟩, grown.grow (satMul full (unit c)))
  else (⟨total⟩, grown)

def growsIn : Phase → Bool
  | .normal => true
  | .disorder => true
  | _ => false

def acknowledge (r : Reno) (c : Connection) (acked : UInt32) : Reno × Connection :=
  if growsIn c.phase then
    let (left, started) := if c.inSlowStart then slowStart c acked else (acked, c)
    if !started.inSlowStart && left != 0 then r.avoidCongestion started left
    else (r, started)
  else (r, c)

def signal (r : Reno) (c : Connection) : Signal → Reno × Connection
  | .loss => (initial, c.halve)
  | _ => (r, c)

end Reno

end ScalableCongestion
