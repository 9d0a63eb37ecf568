import ScalableCongestion.Control.Reno
import ScalableCongestion.Proofs.Control.LossTarget

/-! Prague's answer to a loss beside plain halving. Outside a reduction the two
are the same. During one Prague keeps at least what halving keeps and gives up at
least a quarter, and the more the larger the estimate is the less it gives up. -/
namespace ScalableCongestion

namespace Prague

theorem signal_loss (p : Prague) (c : Connection) :
    p.signal c .loss = (none, p, c.reduceTo (p.lossWindow c)) := by
  rw [signal, lose_eq_reduceTo]

end Prague

theorem Connection.reduceTo_cwnd_mono (c : Connection) {target target' : UInt32}
    (h : target ≤ target') : (c.reduceTo target).cwnd ≤ (c.reduceTo target').cwnd := by
  rw [UInt32.le_iff_toNat_le] at h ⊢
  simp only [reduceTo, toNat_max]
  omega

/-- A loss sets both windows to one target above the floor and touches nothing
else. Outside a reduction the target is half the window, as it is for Reno.
During one it lies between a half and three quarters, within a byte of the exact
product, and grows with the window and with the estimate. -/
theorem loss_response {p : Prague} (halpha : inUnit p.alpha = true) (c : Connection) :
    p.signal c .loss =
      (none, p, { c with
        ssthresh := max (p.lossWindow c) c.minWindow
        cwnd := max (p.lossWindow c) c.minWindow }) ∧
    (c.phase ≠ .cwr →
      (p.lossWindow c).toNat = c.cwnd.toNat / 2 ∧
      ∀ r : Reno, (p.signal c .loss).2.2 = (r.signal c .loss).2) ∧
    (c.phase = .cwr →
      c.cwnd.toNat / 2 ≤ (p.lossWindow c).toNat ∧
      (p.lossWindow c).toNat ≤ 3 * c.cwnd.toNat / 4 ∧
      (∃ a, Denotes p.alpha a ∧
        (p.lossWindow c).toNat ≤ ⌊c.cwnd.toNat * (2 + a) / 4⌋₊ + 1 ∧
        ⌊c.cwnd.toNat * (2 + a) / 4⌋₊ ≤ (p.lossWindow c).toNat + 1) ∧
      (∀ (p' : Prague) (cwnd' : UInt32), inUnit p'.alpha = true → p.alpha ≤ p'.alpha →
        c.cwnd ≤ cwnd' → p.lossWindow c ≤ p'.lossWindow { c with cwnd := cwnd' }) ∧
      ∀ r : Reno, (r.signal c .loss).2.cwnd ≤ (p.signal c .loss).2.2.cwnd) := by
  rw [p.signal_loss]
  refine ⟨rfl, ?_, ?_⟩
  · intro hphase
    rw [p.lossWindow_normal hphase]
    exact ⟨UInt32.toNat_div .., fun r => rfl⟩
  · intro hphase
    obtain ⟨a, ha, ha'⟩ := inUnit_iff.mp halpha
    obtain ⟨hlow, hhigh⟩ := Prague.lossTarget_bounds halpha c.cwnd
    have hnear := Prague.floor_scaled_near ha' c.cwnd.toNat_lt
    rw [← Prague.toNat_lossTarget ha ha'] at hnear
    rw [p.lossWindow_reducing hphase]
    refine ⟨hlow, hhigh, ⟨a, ha, hnear⟩, ?_, ?_⟩
    · intro p' cwnd' halpha' hle hcwnd
      rw [p'.lossWindow_reducing (c := { c with cwnd := cwnd' }) hphase]
      exact Prague.lossTarget_mono halpha halpha' hle hcwnd
    · intro r
      apply c.reduceTo_cwnd_mono
      rw [UInt32.le_iff_toNat_le, UInt32.toNat_div]
      exact hlow

def fullWindow : Connection := { Connection.initial 1448 4294967295 with phase := .cwr }

def tenthMarked : Prague := { Prague.initial with estimator := ⟨0.1, 0.0625⟩ }

theorem loss_response_fullWindow :
    inUnit tenthMarked.alpha = true ∧ fullWindow.phase = .cwr ∧
      (tenthMarked.signal fullWindow .loss).2.2 =
        { fullWindow with ssthresh := 2254857829, cwnd := 2254857829 } ∧
      (Reno.initial.signal fullWindow .loss).2.cwnd = 2147483647 ∧
      (Reno.initial.signal fullWindow .loss).2.cwnd ≤
        (tenthMarked.signal fullWindow .loss).2.2.cwnd := by
  have halpha : inUnit tenthMarked.alpha = true := by decide +kernel
  obtain ⟨hanswer, _, hreducing⟩ := loss_response halpha fullWindow
  obtain ⟨_, _, _, _, hreno⟩ := hreducing rfl
  refine ⟨halpha, rfl, ?_, by decide +kernel, hreno .initial⟩
  rw [hanswer]
  decide +kernel

end ScalableCongestion
