import ScalableCongestion.Delay.SmoothedRtt

/-! The smoothed round trip as an exact fold of its samples: the first sample,
and then seven parts of the average to one part of the sample, rounded down. An
average lies between the samples, and the sums on the way to it are at most eight
of them. -/
namespace ScalableCongestion.SmoothedRtt

def average : List Nat → Nat
  | [] => 0
  | first :: samples => samples.foldl (fun average sample => (7 * average + sample) / 8) first

theorem average_concat {samples : List Nat} (h : samples ≠ []) (sample : Nat) :
    average (samples ++ [sample]) = (7 * average samples + sample) / 8 := by
  cases samples with
  | nil => contradiction
  | cons first samples =>
      simp only [List.cons_append, average, List.foldl_append, List.foldl_cons, List.foldl_nil]

def Averages (r : SmoothedRtt) (samples : List Nat) : Prop :=
  match r.smoothed with
  | none => samples = []
  | some smoothed => samples ≠ [] ∧ smoothed.nanos = average samples

theorem averages_initial : Averages .initial [] := rfl

variable {r next : SmoothedRtt} {sample smoothed : Duration}

theorem update?_eq_some (h : r.update? sample = some (smoothed, next)) :
    next.smoothed = some smoothed ∧
      smoothed.nanos = (r.smoothed.map Duration.nanos).elim sample.nanos
        fun before => (7 * before + sample.nanos) / 8 := by
  unfold update? at h
  cases hbefore : r.smoothed with
  | none =>
      rw [hbefore] at h
      cases h
      exact ⟨rfl, rfl⟩
  | some before =>
      rw [hbefore] at h
      obtain ⟨_, _, h⟩ := Option.bind_eq_some_iff.mp h
      obtain ⟨_, _, h⟩ := Option.bind_eq_some_iff.mp h
      obtain ⟨scaled, hscaled, h⟩ := Option.bind_eq_some_iff.mp h
      obtain ⟨sum, hsum, h⟩ := Option.bind_eq_some_iff.mp h
      cases h
      have hscaled' := Duration.ofNanos?_eq_some_iff.mp hscaled
      have hsum' := Duration.ofNanos?_eq_some_iff.mp hsum
      refine ⟨rfl, ?_⟩
      change sum.nanos / 8 = (7 * before.nanos + sample.nanos) / 8
      rw [hsum', hscaled', Nat.mul_comm]

theorem Averages.update {samples : List Nat} (hr : r.Averages samples)
    (h : r.update? sample = some (smoothed, next)) :
    smoothed.nanos = average (samples ++ [sample.nanos]) ∧
      next.Averages (samples ++ [sample.nanos]) := by
  obtain ⟨hnext, hsmoothed⟩ := update?_eq_some h
  have haverage : smoothed.nanos = average (samples ++ [sample.nanos]) := by
    unfold Averages at hr
    cases hbefore : r.smoothed with
    | none =>
        rw [hbefore] at hr hsmoothed
        subst hr
        exact hsmoothed
    | some before =>
        rw [hbefore] at hr hsmoothed
        rw [average_concat hr.1, ← hr.2]
        exact hsmoothed
  refine ⟨haverage, ?_⟩
  unfold Averages
  rw [hnext]
  exact ⟨List.concat_ne_nil _ _, haverage⟩

def updateAll? (r : SmoothedRtt) (samples : List Duration) : Option SmoothedRtt :=
  samples.foldlM (fun r sample => (r.update? sample).map Prod.snd) r

theorem updateAll?_nil (r : SmoothedRtt) : r.updateAll? [] = some r := rfl

theorem updateAll?_singleton (r : SmoothedRtt) (sample : Duration) :
    r.updateAll? [sample] = (r.update? sample).map Prod.snd := by
  rw [updateAll?, List.foldlM_cons]
  exact bind_pure _

theorem updateAll?_append (r : SmoothedRtt) (samples later : List Duration) :
    r.updateAll? (samples ++ later) = (r.updateAll? samples).bind (·.updateAll? later) :=
  List.foldlM_append

/-- Averages within the bounds of their samples. The variation has no lower one. -/
structure Between (low high : Nat) (r : SmoothedRtt) : Prop where
  smoothed : ∀ d, r.smoothed = some d → low ≤ d.nanos ∧ d.nanos ≤ high
  variation : r.variation.nanos ≤ high

theorem between_initial (low high : Nat) : Between low high .initial :=
  ⟨nofun, Nat.zero_le high⟩

variable {low high : Nat}

/-- Seven averages and a sample fit where eight samples do, and so do three
variations and a difference. -/
theorem Between.exists_update (h : r.Between low high) (hlow : low ≤ sample.nanos)
    (hhigh : sample.nanos ≤ high) (hfits : 8 * high < Duration.capacity) :
    ∃ smoothed next, r.update? sample = some (smoothed, next) ∧ next.Between low high := by
  have hvariation := h.variation
  unfold update?
  cases hsmoothed : r.smoothed with
  | none =>
      refine ⟨_, _, rfl, ?_, ?_⟩
      · rintro _ ⟨⟩
        exact ⟨hlow, hhigh⟩
      · exact Nat.le_trans (Nat.div_le_self _ _) hhigh
  | some before =>
      obtain ⟨hlow', hhigh'⟩ := h.smoothed before hsmoothed
      have hdistance : (before.distance sample).nanos ≤ high := by
        change before.nanos - sample.nanos + (sample.nanos - before.nanos) ≤ high
        omega
      have hweighted : r.variation.nanos * 3 < Duration.capacity := by omega
      have htotal : r.variation.nanos * 3 + (before.distance sample).nanos < Duration.capacity := by
        omega
      have hscaled : before.nanos * 7 < Duration.capacity := by omega
      have hsum : before.nanos * 7 + sample.nanos < Duration.capacity := by omega
      simp only [Duration.scale?, Duration.add?, Duration.ofNanos?_of_lt hweighted,
        Duration.ofNanos?_of_lt htotal, Duration.ofNanos?_of_lt hscaled,
        Duration.ofNanos?_of_lt hsum, Option.bind_eq_bind, Option.bind_some]
      refine ⟨_, _, rfl, ?_, ?_⟩
      · rintro _ ⟨⟩
        change low ≤ (before.nanos * 7 + sample.nanos) / 8 ∧
          (before.nanos * 7 + sample.nanos) / 8 ≤ high
        omega
      · change (r.variation.nanos * 3 + (before.distance sample).nanos) / 4 ≤ high
        omega

end ScalableCongestion.SmoothedRtt
