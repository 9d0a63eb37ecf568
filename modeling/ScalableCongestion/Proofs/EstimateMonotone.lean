import Mathlib.Data.List.Forall2
import ScalableCongestion.Proofs.Marking.Estimator

/-! More marks never lower the estimate. Two estimators of one gain are fed the
same acknowledgements, and one of them starts no higher and is told of no more
marks. After each update its estimate is the lower one, in the arithmetic of
doubles. -/
namespace ScalableCongestion.Estimator

def updateAll (e : Estimator) (cycles : List (UInt32 × UInt32)) : Estimator :=
  cycles.foldl (fun e cycle => (e.update cycle.1 cycle.2).2) e

/-- The same bytes acknowledged, with at least as many of them marked. -/
structure MoreMarked (cycle cycle' : UInt32 × UInt32) : Prop where
  marked : cycle.1 ≤ cycle'.1
  acked : cycle.2 = cycle'.2

structure Below (e e' : Estimator) : Prop where
  gain : e.gain = e'.gain
  gain_inUnit : inUnit e.gain = true
  alpha_inUnit : inUnit e.alpha = true
  alpha_inUnit' : inUnit e'.alpha = true
  alpha_le : e.alpha ≤ e'.alpha

variable {e e' : Estimator}

theorem Below.advance (h : e.Below e') {marked marked' : UInt32} (hmarked : marked ≤ marked')
    (acked : UInt32) : (e.advance marked acked).Below (e'.advance marked' acked) := by
  obtain ⟨g, hg, hg'⟩ := inUnit_iff.mp h.gain_inUnit
  obtain ⟨a, ha, ha'⟩ := inUnit_iff.mp h.alpha_inUnit
  obtain ⟨b, hb, hb'⟩ := inUnit_iff.mp h.alpha_inUnit'
  have hle : a ≤ b := (le_iff ha hb).mp h.alpha_le
  have hnext := denotes_advance ha hg ha' hg' marked acked
  have hnext' := denotes_advance hb (h.gain ▸ hg) hb' hg' marked' acked
  refine ⟨h.gain, h.gain_inUnit, ?_, ?_, ?_⟩
  · exact advance_inUnit h.alpha_inUnit h.gain_inUnit marked acked
  · exact advance_inUnit h.alpha_inUnit' (h.gain ▸ h.gain_inUnit) marked' acked
  · rw [le_iff hnext hnext']
    exact advanced_mono hg' hle (share_mono hmarked acked)

theorem Below.updateAll (h : e.Below e') {cycles cycles' : List (UInt32 × UInt32)}
    (hcycles : List.Forall₂ MoreMarked cycles cycles') :
    (e.updateAll cycles).Below (e'.updateAll cycles') := by
  induction hcycles generalizing e e' with
  | nil => exact h
  | @cons cycle cycle' _ _ hmore _ ih =>
      obtain ⟨marked, acked⟩ := cycle
      obtain ⟨marked', acked'⟩ := cycle'
      obtain ⟨hmarked, hacked⟩ := hmore
      cases hacked
      exact ih (h.advance hmarked acked)

/-- With one gain and the same acknowledgements, a lower start and fewer marks
give no higher estimate after any number of updates, marks beyond the
acknowledged bytes and acknowledgements of nothing included. -/
theorem alpha_le_of_moreMarked {gain alpha alpha' : Float} (hgain : inUnit gain = true)
    (halpha : inUnit alpha = true) (halpha' : inUnit alpha' = true) (hle : alpha ≤ alpha')
    {cycles cycles' : List (UInt32 × UInt32)}
    (hcycles : List.Forall₂ MoreMarked cycles cycles') (count : Nat) :
    ((⟨alpha, gain⟩ : Estimator).updateAll (cycles.take count)).alpha ≤
      ((⟨alpha', gain⟩ : Estimator).updateAll (cycles'.take count)).alpha := by
  have hstart : (⟨alpha, gain⟩ : Estimator).Below ⟨alpha', gain⟩ :=
    ⟨rfl, hgain, halpha, halpha', hle⟩
  exact (hstart.updateAll (List.forall₂_take count hcycles)).alpha_le

def fewMarks : List (UInt32 × UInt32) := [(0, 1448), (5000, 1448), (7, 0), (1, 3)]

def manyMarks : List (UInt32 × UInt32) := [(724, 1448), (4294967295, 1448), (9, 0), (2, 3)]

theorem alpha_le_of_moreMarked_beyondAcked :
    inUnit 0.1 = true ∧ inUnit 0.3 = true ∧ (0.1 : Float) ≤ 0.3 ∧
      List.Forall₂ MoreMarked fewMarks manyMarks ∧
      ((⟨0.1, 0.3⟩ : Estimator).updateAll (fewMarks.take 4)).alpha ≤
        ((⟨0.3, 0.3⟩ : Estimator).updateAll (manyMarks.take 4)).alpha ∧
      ((⟨0.1, 0.3⟩ : Estimator).updateAll fewMarks).alpha.toBits = 4598553702057960632 ∧
      ((⟨0.3, 0.3⟩ : Estimator).updateAll manyMarks).alpha.toBits = 4602147034128647004 := by
  have hlow : inUnit 0.1 = true := by decide +kernel
  have hhigh : inUnit 0.3 = true := by decide +kernel
  have hle : (0.1 : Float) ≤ 0.3 := by decide +kernel
  have hcycles : List.Forall₂ MoreMarked fewMarks manyMarks := by
    refine .cons ⟨?_, rfl⟩ (.cons ⟨?_, rfl⟩ (.cons ⟨?_, rfl⟩ (.cons ⟨?_, rfl⟩ .nil)))
    · decide
    · decide
    · decide
    · decide
  exact ⟨hlow, hhigh, hle, hcycles, alpha_le_of_moreMarked hhigh hlow hhigh hle hcycles 4,
    by decide +kernel, by decide +kernel⟩

end ScalableCongestion.Estimator
