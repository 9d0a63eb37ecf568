/-! A moving average of the fraction of acknowledged bytes that were marked.
All arithmetic is in doubles, rounded to nearest. -/
namespace ScalableCongestion

structure Estimate where
  bytesAcked : UInt32
  bytesMarked : UInt32
  alpha : Float

structure Estimator where
  alpha : Float
  gain : Float

namespace Estimator

def defaultGain : Float := 0.0625

def defaultAlpha : Float := 1.0

def initial : Estimator := ⟨defaultAlpha, defaultGain⟩

instance : Inhabited Estimator := ⟨initial⟩

/-- Reports may count more bytes than were acknowledged; the fraction stops at
one. Nothing acknowledged counts as nothing marked. -/
def fraction (marked acked : UInt32) : Float :=
  if acked = 0 then 0.0
  else
    let quotient := marked.toFloat / acked.toFloat
    if 1.0 < quotient then 1.0 else quotient

def advance (e : Estimator) (marked acked : UInt32) : Estimator :=
  { e with alpha := (1.0 - e.gain) * e.alpha + e.gain * fraction marked acked }

def update (e : Estimator) (marked acked : UInt32) : Estimate × Estimator :=
  let next := e.advance marked acked
  (⟨acked, marked, next.alpha⟩, next)

end Estimator

end ScalableCongestion
