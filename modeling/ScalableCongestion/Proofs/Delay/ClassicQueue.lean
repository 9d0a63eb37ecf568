import ScalableCongestion.Delay.ClassicQueue

/-! The detector of a classic queue. A sample lowers the base and then compares,
strictly; over any samples the changes that the detector reports alternate, and
the last of them says whether it suspects a classic queue. -/
namespace ScalableCongestion

/-- Changes that alternate, from where the suspicion is `before` to where it is
`after`. -/
inductive Alternate : Bool → List QueueChange → Bool → Prop where
  | nil (suspected : Bool) : Alternate suspected [] suspected
  | enter {changes : List QueueChange} {after : Bool} (rest : Alternate true changes after) :
    Alternate false (.entered :: changes) after
  | exit {changes : List QueueChange} {after : Bool} (rest : Alternate false changes after) :
    Alternate true (.exited :: changes) after

namespace Alternate

variable {before middle after : Bool} {changes later : List QueueChange}

theorem append (h : Alternate before changes middle) (hlater : Alternate middle later after) :
    Alternate before (changes ++ later) after := by
  induction h with
  | nil _ => exact hlater
  | enter _ ih => exact .enter (ih hlater)
  | exit _ ih => exact .exit (ih hlater)

theorem getElem_eq (h : Alternate before changes after) (i : Nat) (hi : i < changes.length) :
    changes[i] = if (i % 2 = 0 ↔ before = false) then .entered else .exited := by
  induction h generalizing i with
  | nil _ => contradiction
  | enter _ ih =>
      cases i with
      | zero => rfl
      | succ i =>
          have hparity : (i + 1) % 2 = 0 ↔ ¬i % 2 = 0 := by omega
          simp [ih i (Nat.lt_of_succ_lt_succ hi), hparity]
  | exit _ ih =>
      cases i with
      | zero => rfl
      | succ i =>
          have hparity : (i + 1) % 2 = 0 ↔ ¬i % 2 = 0 := by omega
          simp [ih i (Nat.lt_of_succ_lt_succ hi), hparity]

theorem after_eq (h : Alternate before changes after) :
    after = match changes.getLast? with
      | none => before
      | some change => decide (change = .entered) := by
  induction h with
  | nil _ => rfl
  | enter rest ih =>
      rw [List.getLast?_cons, ih]
      cases List.getLast? _ <;> rfl
  | exit rest ih =>
      rw [List.getLast?_cons, ih]
      cases List.getLast? _ <;> rfl

end Alternate

namespace ClassicQueue

variable {q next : ClassicQueue} {rtt srtt : Duration} {change : Option QueueChange}

theorem nanos_lowered (q : ClassicQueue) (rtt : Duration) :
    (q.lowered rtt).nanos = (q.baseRtt.map Duration.nanos).elim rtt.nanos (min · rtt.nanos) := by
  unfold lowered
  cases q.baseRtt with
  | none => rfl
  | some base =>
      simp only [Duration.min, Option.map_some, Option.elim_some]
      split <;> omega

theorem nanos_lowered_le (q : ClassicQueue) (rtt : Duration) :
    (q.lowered rtt).nanos ≤ rtt.nanos := by
  rw [nanos_lowered]
  cases q.baseRtt with
  | none => exact Nat.le_refl _
  | some base => exact Nat.min_le_right _ _

def sampled (q : ClassicQueue) (rtt srtt : Duration) : ClassicQueue :=
  ⟨some (q.lowered rtt), decide ((q.lowered rtt).nanos + 3000000 < srtt.nanos)⟩

theorem sample?_zero (q : ClassicQueue) (srtt : Duration) (h : rtt.isZero = true) :
    q.sample? rtt srtt = some (none, q) := by
  rw [sample?, if_pos h]

theorem sample?_eq_some (hrtt : rtt.isZero = false)
    (h : q.sample? rtt srtt = some (change, next)) :
    next = q.sampled rtt srtt ∧ Alternate q.suspected change.toList next.suspected := by
  rw [sample?, hrtt, if_neg Bool.false_ne_true] at h
  obtain ⟨limit, hlimit, hpair⟩ := Option.map_eq_some_iff.mp h
  cases hpair
  have hnanos : limit.nanos = (q.lowered rtt).nanos + 3000000 :=
    Duration.ofNanos?_eq_some_iff.mp hlimit
  rw [hnanos]
  refine ⟨rfl, ?_⟩
  generalize decide ((q.lowered rtt).nanos + 3000000 < srtt.nanos) = suspected
  cases q.suspected <;> cases suspected
  · exact .nil false
  · exact .enter (.nil true)
  · exact .exit (.nil false)
  · exact .nil true

theorem exists_sample (q : ClassicQueue) (srtt : Duration)
    (hfits : rtt.nanos + 3000000 < Duration.capacity) :
    ∃ change next, q.sample? rtt srtt = some (change, next) := by
  cases hzero : rtt.isZero with
  | true => exact ⟨_, _, sample?_zero q srtt hzero⟩
  | false =>
      have hlimit : (q.lowered rtt).nanos + 3000000 < Duration.capacity :=
        Nat.lt_of_le_of_lt (Nat.add_le_add_right (q.nanos_lowered_le rtt) _) hfits
      have hadded := Duration.ofNanos?_of_lt hlimit
      rw [sample?, hzero, if_neg Bool.false_ne_true]
      exact ⟨_, _, Option.map_eq_some_iff.mpr ⟨_, hadded, rfl⟩⟩

/-- Several samples in order, each with the smoothed round trip of its time, and
all changes that they bring. -/
def samples? (q : ClassicQueue) :
    List (Duration × Duration) → Option (List QueueChange × ClassicQueue)
  | [] => some ([], q)
  | (rtt, srtt) :: samples => do
    let (change, next) ← q.sample? rtt srtt
    let (changes, last) ← next.samples? samples
    return (change.toList ++ changes, last)

theorem alternate_of_sample? (h : q.sample? rtt srtt = some (change, next)) :
    Alternate q.suspected change.toList next.suspected := by
  cases hrtt : rtt.isZero with
  | true =>
      rw [sample?_zero q srtt hrtt] at h
      cases h
      exact .nil q.suspected
  | false => exact (sample?_eq_some hrtt h).2

theorem alternate_of_samples? {samples : List (Duration × Duration)}
    {changes : List QueueChange} {last : ClassicQueue}
    (h : q.samples? samples = some (changes, last)) :
    Alternate q.suspected changes last.suspected := by
  induction samples generalizing q changes with
  | nil =>
      cases h
      exact .nil _
  | cons sample samples ih =>
      obtain ⟨⟨change, next⟩, hsample, h⟩ := Option.bind_eq_some_iff.mp h
      obtain ⟨⟨rest, last⟩, hrest, h⟩ := Option.bind_eq_some_iff.mp h
      cases h
      exact (alternate_of_sample? hsample).append (ih hrest)

end ClassicQueue

end ScalableCongestion
