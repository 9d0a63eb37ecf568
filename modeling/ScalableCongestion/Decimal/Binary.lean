/-! The exact value of a finite double: a sign and a whole number of units,
each a power of two. -/
namespace ScalableCongestion

structure Binary where
  negative : Bool
  mantissa : Nat
  exponent : Int
deriving DecidableEq, Repr

namespace Binary

/-- Splits the bits of a double: a sign bit, eleven exponent bits and fifty-two
mantissa bits, with a leading one unless the exponent bits are zero. -/
def ofBits (bits : UInt64) : Binary :=
  let word := bits.toNat
  let negative := word / Nat.pow 2 63 == 1
  let mantissa := word % Nat.pow 2 52
  let exponent : Nat := word / Nat.pow 2 52 % Nat.pow 2 11
  if exponent = 0 then ⟨negative, mantissa, -1074⟩
  else ⟨negative, mantissa + Nat.pow 2 52, (exponent : Int) - 1075⟩

def ofFloat (x : Float) : Binary := ofBits x.toBits

def numerator (b : Binary) : Nat := b.mantissa * Nat.pow 2 b.exponent.toNat

def denominator (b : Binary) : Nat := Nat.pow 2 (-b.exponent).toNat

theorem denominator_pos (b : Binary) : 0 < b.denominator := Nat.two_pow_pos _

/-- The magnitude times `k`, rounded to the nearest whole number; a half goes
up if `up` is set and otherwise to the even neighbour. -/
def roundTimes (b : Binary) (k : Nat) (up : Bool) : Nat :=
  let scaled := b.numerator * k
  let whole := scaled / b.denominator
  let rest := scaled % b.denominator
  match compare (2 * rest) b.denominator with
  | .lt => whole
  | .eq => if up || whole % 2 == 1 then whole + 1 else whole
  | .gt => whole + 1

example : ofFloat 0.75 = ⟨false, 6755399441055744, -53⟩ := by decide +kernel
example : (ofFloat 2.5).roundTimes 1 true = 3 ∧ (ofFloat 2.5).roundTimes 1 false = 2 := by
  decide +kernel

end Binary

end ScalableCongestion
