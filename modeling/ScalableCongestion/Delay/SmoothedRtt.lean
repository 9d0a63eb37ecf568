import ScalableCongestion.Duration

/-! The smoothed round-trip time and its variation, as moving averages with the
weights one eighth and one quarter. -/
namespace ScalableCongestion

structure SmoothedRtt where
  smoothed : Option Duration
  variation : Duration
deriving DecidableEq

namespace SmoothedRtt

def initial : SmoothedRtt := ⟨none, .zero⟩

instance : Inhabited SmoothedRtt := ⟨initial⟩

/-- Takes in a sample; `none` if an intermediate sum is no duration. -/
def update? (r : SmoothedRtt) (sample : Duration) : Option (Duration × SmoothedRtt) :=
  match r.smoothed with
  | none => some (sample, ⟨some sample, sample.div 2⟩)
  | some smoothed => do
    let weighted ← r.variation.scale? 3
    let total ← weighted.add? (smoothed.distance sample)
    let scaled ← smoothed.scale? 7
    let sum ← scaled.add? sample
    let next := sum.div 8
    return (next, ⟨some next, total.div 4⟩)

end SmoothedRtt

end ScalableCongestion
