import ScalableCongestion.Proofs.Decimal.Shortest
import ScalableCongestion.Proofs.Json.RoundTrip

/-! How doubles are written in documents. However its point is placed, the literal
is spelled as the grammar of numbers asks, never reads as a whole number, and has
the value of the shortest decimal, with digits that fit 64 bits. -/
namespace ScalableCongestion.Decimal

/-! ## Digits -/

theorem head?_toDigits {n : Nat} (h : 0 < n) : (Nat.toDigits 10 n).head? ≠ some '0' := by
  induction n using Nat.base_induction 10 (by decide) with
  | single m hm =>
      rw [Nat.toDigits_of_lt_base hm]
      revert h
      revert m
      decide
  | digit m k hk hm ih =>
      rw [← Nat.toDigits_append_toDigits (by decide) hm hk,
        List.head?_append_of_ne_nil _ Nat.toDigits_ne_nil]
      exact ih hm

theorem isDigit_toDigits {n : Nat} : ∀ c ∈ Nat.toDigits 10 n, c.isDigit = true := fun _ hc =>
  Nat.isDigit_of_mem_toDigits (by decide) (by decide) hc

theorem isDigit_zeros (k : Nat) : ∀ c ∈ zeros k, c.isDigit = true := by
  intro c hc
  rw [List.eq_of_mem_replicate hc]
  rfl

theorem natOfDigits_zeros_append (k : Nat) (digits : List Char) :
    natOfDigits (zeros k ++ digits) = natOfDigits digits := by
  rw [natOfDigits, Nat.ofDigitChars_append, zeros, Nat.ofDigitChars_replicate_zero, Nat.mul_zero]
  rfl

theorem natOfDigits_append_zeros (digits : List Char) (k : Nat) :
    natOfDigits (digits ++ zeros k) = 10 ^ k * natOfDigits digits := by
  rw [natOfDigits, Nat.ofDigitChars_append, zeros, Nat.ofDigitChars_replicate_zero]
  rfl

theorem natOfDigits_toDigits (n : Nat) : natOfDigits (Nat.toDigits 10 n) = n :=
  Nat.ofDigitChars_ten_toDigits

/-! ## Placing the point -/

structure Written (negative : Bool) (n : Numeral) (l : Literal) : Prop where
  spelled : l.Spelled
  negative_eq : l.negative = negative
  real : l.fraction ≠ [] ∨ l.exponent ≠ none
  value_eq : l.numeral.value = n.value
  coefficient_lt : l.numeral.coefficient < 2 ^ 64

/-- The digits of a numeral, and the exponent of the first of them. -/
structure Digits (n : Numeral) (digits : List Char) (places : ℤ) : Prop where
  isDigit : ∀ c ∈ digits, c.isDigit = true
  head? : digits.head? ≠ some '0'
  ne_nil : digits ≠ []
  coefficient_eq : natOfDigits digits = n.coefficient
  coefficient_lt : n.coefficient < 10 ^ digits.length
  exponent_eq : n.exponent = places + 1 - digits.length

theorem digits_toDigits {n : Numeral} (hpos : 0 < n.coefficient) :
    Digits n (Nat.toDigits 10 n.coefficient)
      ((Nat.toDigits 10 n.coefficient).length - 1 + n.exponent) :=
  ⟨isDigit_toDigits, head?_toDigits hpos, Nat.toDigits_ne_nil, natOfDigits_toDigits _,
    (Nat.length_toDigits_le_iff (by decide) Nat.length_toDigits_pos).mp le_rfl, by omega⟩

section

variable {n : Numeral} {digits : List Char} {places : ℤ} (negative : Bool)

theorem written_of_numeral {l : Literal} (hnegative : l.negative = negative)
    (hspelled : l.Spelled) (hreal : l.fraction ≠ [] ∨ l.exponent ≠ none)
    (hcoefficient : n.coefficient < 2 ^ 64)
    (hdigits : natOfDigits (l.whole ++ l.fraction) = n.coefficient)
    (hexponent : l.exponentValue - l.fraction.length = n.exponent) : Written negative n l := by
  have hnumeral : l.numeral = n := by rw [Literal.numeral, hdigits, hexponent]
  refine ⟨hspelled, hnegative, hreal, ?_, ?_⟩ <;> rw [hnumeral]
  exact hcoefficient

theorem written_below (h : Digits n digits places) (hcoefficient : n.coefficient < 2 ^ 64)
    (hplaces : places < 0) :
    Written negative n ⟨negative, ['0'], zeros (-places - 1).toNat ++ digits, none⟩ := by
  have hexponent := h.exponent_eq
  refine written_of_numeral negative rfl ⟨List.cons_ne_nil _ _, ?_, fun _ => rfl, ?_, nofun⟩
    (.inl ?_)
    hcoefficient ?_ ?_
  · intro c hc
    rw [List.mem_singleton.mp hc]
    rfl
  · intro c hc
    rcases List.mem_append.mp hc with hzero | hdigit
    · exact isDigit_zeros _ c hzero
    · exact h.isDigit c hdigit
  · exact List.append_ne_nil_of_right_ne_nil _ h.ne_nil
  · rw [← h.coefficient_eq, ← natOfDigits_zeros_append ((-places - 1).toNat + 1) digits]
    rfl
  · rw [Literal.exponentValue, List.length_append, zeros, List.length_replicate]
    push_cast
    omega

theorem written_within (h : Digits n digits places) (hcoefficient : n.coefficient < 2 ^ 64)
    (hplaces : 0 ≤ places) (hwithin : places.toNat + 1 < digits.length) :
    Written negative n
      ⟨negative, digits.take (places.toNat + 1), digits.drop (places.toNat + 1), none⟩ := by
  have hexponent := h.exponent_eq
  refine written_of_numeral negative rfl ⟨?_, ?_, ?_, ?_, nofun⟩ (.inl ?_) hcoefficient ?_ ?_
  · exact mt List.take_eq_nil_iff.mp (not_or.mpr ⟨Nat.succ_ne_zero _, h.ne_nil⟩)
  · exact fun c hc => h.isDigit c (List.mem_of_mem_take hc)
  · intro hzero
    rw [List.head?_take, if_neg (Nat.succ_ne_zero _)] at hzero
    exact absurd hzero h.head?
  · exact fun c hc => h.isDigit c (List.mem_of_mem_drop hc)
  · exact mt List.drop_eq_nil_iff.mp (not_le.mpr hwithin)
  · rw [List.take_append_drop, h.coefficient_eq]
  · rw [Literal.exponentValue, List.length_drop]
    push_cast [hwithin.le]
    omega

theorem written_scientific (h : Digits n digits places) (hcoefficient : n.coefficient < 2 ^ 64) :
    Written negative n (layScientific negative digits places) := by
  have hexponent := h.exponent_eq
  have hlength := List.length_pos_iff.mpr h.ne_nil
  refine written_of_numeral negative rfl ⟨?_, ?_, ?_, ?_, ?_⟩ (.inr (Option.some_ne_none _))
    hcoefficient ?_ ?_
  · exact mt List.take_eq_nil_iff.mp (not_or.mpr ⟨Nat.succ_ne_zero _, h.ne_nil⟩)
  · exact fun c hc => h.isDigit c (List.mem_of_mem_take hc)
  · intro hzero
    rw [layScientific, List.head?_take, if_neg (Nat.succ_ne_zero _)] at hzero
    exact absurd hzero h.head?
  · exact fun c hc => h.isDigit c (List.mem_of_mem_drop hc)
  · intro e he
    cases Option.some.inj he
    exact ⟨Nat.toDigits_ne_nil, isDigit_toDigits⟩
  · rw [layScientific, List.take_append_drop, h.coefficient_eq]
  · have hvalue : (layScientific negative digits places).exponentValue = places := by
      change (if decide (places < 0) = true then -(natOfDigits (Nat.toDigits 10 places.natAbs) : ℤ)
        else natOfDigits (Nat.toDigits 10 places.natAbs)) = places
      rw [natOfDigits_toDigits]
      simp only [decide_eq_true_eq]
      split <;> omega
    rw [hvalue, layScientific, List.length_drop]
    push_cast [hlength]
    omega

/-- A whole number ends in a point and a zero, so its digits say ten times as much. -/
theorem written_whole (h : Digits n digits places) (hplaces : places ≤ 15)
    (hwhole : digits.length ≤ places.toNat + 1) (hnonneg : 0 ≤ places) :
    Written negative n
      ⟨negative, digits ++ zeros (places.toNat + 1 - digits.length), ['0'], none⟩ := by
  generalize hk : places.toNat + 1 - digits.length = k
  have hexponent : n.exponent = k := by
    have := h.exponent_eq
    omega
  have hdigits : natOfDigits (digits ++ zeros k ++ ['0']) = 10 ^ (k + 1) * n.coefficient := by
    have hzeros : zeros k ++ ['0'] = zeros (k + 1) := List.replicate_succ'.symm
    rw [List.append_assoc, hzeros, natOfDigits_append_zeros, h.coefficient_eq]
  have hnumeral : Literal.numeral ⟨negative, digits ++ zeros k, ['0'], none⟩ =
      ⟨10 ^ (k + 1) * n.coefficient, -1⟩ := by
    rw [Literal.numeral, hdigits]
    rfl
  refine ⟨⟨?_, ?_, ?_, ?_, nofun⟩, rfl, .inl (List.cons_ne_nil _ _), ?_, ?_⟩
  · exact List.append_ne_nil_of_left_ne_nil h.ne_nil _
  · intro c hc
    rcases List.mem_append.mp hc with hdigit | hzero
    · exact h.isDigit c hdigit
    · exact isDigit_zeros _ c hzero
  · intro hzero
    rw [List.head?_append_of_ne_nil _ h.ne_nil] at hzero
    exact absurd hzero h.head?
  · intro c hc
    rw [List.mem_singleton.mp hc]
    rfl
  · rw [hnumeral, Numeral.value, Numeral.value, hexponent]
    push_cast
    rw [mul_right_comm, ← zpow_natCast, ← zpow_add₀ (by norm_num), mul_comm]
    congr 2
    push_cast
    omega
  · rw [hnumeral]
    calc 10 ^ (k + 1) * n.coefficient < 10 ^ (k + 1) * 10 ^ digits.length :=
          Nat.mul_lt_mul_of_pos_left h.coefficient_lt (Nat.pow_pos (by norm_num))
      _ = 10 ^ (k + 1 + digits.length) := (Nat.pow_add ..).symm
      _ ≤ 10 ^ 17 := Nat.pow_le_pow_right (by norm_num) (by omega)
      _ ≤ 2 ^ 64 := by norm_num

theorem written_layNumeral (hpos : 0 < n.coefficient) (hcoefficient : n.coefficient < 2 ^ 64) :
    Written negative n (layNumeral .document negative n) := by
  have hdigits := digits_toDigits hpos
  rw [layNumeral]
  generalize ((Nat.toDigits 10 n.coefficient).length : ℤ) - 1 + n.exponent = places at hdigits ⊢
  generalize Nat.toDigits 10 n.coefficient = digits at hdigits ⊢
  split
  · next hpositional =>
      have hplaces : places ≤ 15 := by
        have := (Bool.and_eq_true _ _).mp hpositional
        exact of_decide_eq_true this.2
      unfold layPositional
      split
      · next hbelow => exact written_below negative hdigits hcoefficient hbelow
      · next habove =>
          have hnonneg := not_lt.mp habove
          dsimp only
          split
          · next hwithin => exact written_within negative hdigits hcoefficient hnonneg hwithin
          · next hwhole => exact written_whole negative hdigits hplaces (not_lt.mp hwhole) hnonneg
  · exact written_scientific negative hdigits hcoefficient

end

/-! ## Doubles in documents -/

theorem written_zero (negative : Bool) :
    Written negative ⟨0, 0⟩ (layNumeral .document negative ⟨0, 0⟩) := by
  have hlay : layNumeral .document negative ⟨0, 0⟩ = ⟨negative, ['0'], ['0'], none⟩ := rfl
  have hnumeral : Literal.numeral ⟨negative, ['0'], ['0'], none⟩ = ⟨0, -1⟩ := rfl
  have hzero : ∀ c ∈ ['0'], c.isDigit = true := List.forall_mem_singleton.mpr rfl
  rw [hlay]
  refine ⟨⟨List.cons_ne_nil _ _, hzero, fun _ => rfl, hzero, nofun⟩, rfl,
    .inl (List.cons_ne_nil _ _), ?_, ?_⟩
  · rw [hnumeral, Numeral.value, Numeral.value, Nat.cast_zero, zero_mul, zero_mul]
  · rw [hnumeral]
    norm_num

theorem written_lay {x : Float} {q : ℚ} (hx : Denotes x q) :
    ∃ n, Written (Binary.ofFloat x).negative n (lay .document x) ∧
      (q = 0 ∧ n = ⟨0, 0⟩ ∨ q ≠ 0 ∧ Reads n x.abs |q|) := by
  by_cases hq : q = 0
  · refine ⟨⟨0, 0⟩, ?_, .inl ⟨hq, rfl⟩⟩
    rw [lay, if_pos (hx.mantissa_eq_zero_iff.mpr hq)]
    exact written_zero _
  · have hreads : Reads (shortest .toEven x.abs) x.abs |q| :=
      shortest_reads hx.abs (abs_pos.mpr hq)
    refine ⟨_, ?_, .inr ⟨hq, hreads⟩⟩
    rw [lay, if_neg (mt hx.mantissa_eq_zero_iff.mp hq)]
    exact written_layNumeral _ hreads.coefficient_pos
      (hreads.coefficient_le.trans_lt (by norm_num))

end ScalableCongestion.Decimal
