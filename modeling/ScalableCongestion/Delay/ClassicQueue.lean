import ScalableCongestion.Duration

/-! Detection of a classic bottleneck. An L4S queue adds less than three
milliseconds to the shortest round trip; while the smoothed round trip shows
more than that, marks are taken to come from a classic queue. -/
namespace ScalableCongestion

structure ClassicQueue where
  baseRtt : Option Duration
  suspected : Bool
deriving DecidableEq

inductive QueueChange where
  | entered
  | exited
deriving DecidableEq, Repr

namespace ClassicQueue

def initial : ClassicQueue := ⟨none, false⟩

instance : Inhabited ClassicQueue := ⟨initial⟩

def threshold : Duration := .threeMillis

def lowered (q : ClassicQueue) (rtt : Duration) : Duration :=
  match q.baseRtt with
  | none => rtt
  | some base => base.min rtt

/-- Takes a round trip and the smoothed value that includes it; a round trip of
zero is no measurement. `none` if the threshold above the base is no duration. -/
def sample? (q : ClassicQueue) (rtt srtt : Duration) :
    Option (Option QueueChange × ClassicQueue) :=
  if rtt.isZero then some (none, q)
  else
    let base := q.lowered rtt
    (base.add? threshold).map fun limit =>
      let suspected := decide (limit.nanos < srtt.nanos)
      let change :=
        if suspected = q.suspected then none
        else if suspected then some .entered else some .exited
      (change, ⟨some base, suspected⟩)

end ClassicQueue

end ScalableCongestion
