/-! Lengths of time in whole nanoseconds. A length is stored in 64 bits of
seconds, so sums and products may not fit; the operations that can leave the
range answer `none` then. -/
namespace ScalableCongestion

namespace Duration

def nanosPerSecond : Nat := 1000000000

def capacity : Nat := UInt64.size * nanosPerSecond

end Duration

structure Duration where
  nanos : Nat
  nanos_lt : nanos < Duration.capacity

namespace Duration

@[ext] theorem ext {a b : Duration} (h : a.nanos = b.nanos) : a = b := by
  cases a; cases b; cases h; rfl

instance : DecidableEq Duration := fun a b =>
  decidable_of_iff (a.nanos = b.nanos) ⟨ext, congrArg nanos⟩

def ofNanos? (n : Nat) : Option Duration :=
  if h : n < capacity then some ⟨n, h⟩ else none

def zero : Duration := ⟨0, by decide⟩

instance : Inhabited Duration := ⟨zero⟩

/-- Three milliseconds, the queueing delay an L4S bottleneck stays below. -/
def threeMillis : Duration := ⟨3000000, by decide⟩

def isZero (a : Duration) : Bool := a.nanos == 0

def seconds (a : Duration) : Nat := a.nanos / nanosPerSecond

def subsecNanos (a : Duration) : Nat := a.nanos % nanosPerSecond

def add? (a b : Duration) : Option Duration := ofNanos? (a.nanos + b.nanos)

def scale? (a : Duration) (k : Nat) : Option Duration := ofNanos? (a.nanos * k)

def div (a : Duration) (k : Nat) : Duration :=
  ⟨a.nanos / k, Nat.lt_of_le_of_lt (Nat.div_le_self _ _) a.nanos_lt⟩

def distance (a b : Duration) : Duration :=
  ⟨(a.nanos - b.nanos) + (b.nanos - a.nanos), by
    have := a.nanos_lt
    have := b.nanos_lt
    omega⟩

def min (a b : Duration) : Duration := if a.nanos ≤ b.nanos then a else b

theorem ofNanos?_eq_some_iff {n : Nat} {d : Duration} :
    ofNanos? n = some d ↔ d.nanos = n := by
  unfold ofNanos?
  split
  · simp only [Option.some.injEq]
    exact ⟨fun h => h ▸ rfl, fun h => ext h.symm⟩
  · next h => exact ⟨nofun, fun e => absurd (e ▸ d.nanos_lt) h⟩

theorem ofNanos?_of_lt {n : Nat} (h : n < capacity) : ofNanos? n = some ⟨n, h⟩ := dif_pos h

end Duration

end ScalableCongestion
