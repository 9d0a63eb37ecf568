import ScalableCongestion.Decimal.Binary

/-! The shortest decimal of a double: a point of the coarsest decimal grid that
still reads back as that double, and the nearest such point. The numbers that
read back as a double form an interval around it, so if a grid has one, one of
the two grid points next to the double is one. -/
namespace ScalableCongestion.Decimal

structure Numeral where
  coefficient : Nat
  exponent : Int
deriving DecidableEq, Repr

def Numeral.toFloat (n : Numeral) : Float :=
  match n.exponent with
  | .ofNat k => OfScientific.ofScientific n.coefficient false k
  | .negSucc k => OfScientific.ofScientific n.coefficient true (k + 1)

inductive Tie where
  | up
  | toEven
deriving DecidableEq, Repr

/-- Whether `below + rest / unit` is nearer to `below + 1` than to `below`. -/
def nearerAbove (tie : Tie) (below rest unit : Nat) : Bool :=
  match compare (2 * rest) unit with
  | .lt => false
  | .eq => tie == .up || below % 2 == 1
  | .gt => true

/-- The two points around `b` on the grid of multiples of `10 ^ k`, as
multiples, the nearer first. -/
def neighbours (tie : Tie) (b : Binary) (k : Int) : List Nat :=
  let scaled := b.numerator * Nat.pow 10 (-k).toNat
  let unit := b.denominator * Nat.pow 10 k.toNat
  let below := scaled / unit
  if nearerAbove tie below (scaled % unit) unit then [below + 1, below] else [below, below + 1]

def readsBack (x : Float) (n : Numeral) : Bool := n.toFloat.toBits == x.toBits

def gridPoint? (tie : Tie) (x : Float) (k : Int) : Option Numeral :=
  ((neighbours tie (Binary.ofFloat x) k).map (Numeral.mk · k)).find? (readsBack x)

def exact (b : Binary) : Numeral :=
  if b.exponent < 0 then ⟨b.mantissa * Nat.pow 5 (-b.exponent).toNat, b.exponent⟩
  else ⟨b.numerator, 0⟩

def search (tie : Tie) (x : Float) : Nat → Int → Numeral
  | 0, _ => exact (Binary.ofFloat x)
  | grids + 1, k => (gridPoint? tie x k).getD (search tie x grids (k - 1))

/-- An exponent whose power of ten exceeds `b`: the common logarithm of two is
below 0.30103. -/
def upperExponent (b : Binary) : Int :=
  ((b.mantissa.log2 : Int) + 1 + b.exponent) * 30103 / 100000 + 1

/-- The shortest decimal of a positive finite double; it has at most seventeen
digits, so it is found within twenty grids. -/
def shortest (tie : Tie) (x : Float) : Numeral :=
  search tie x 20 (upperExponent (Binary.ofFloat x))

example : shortest .toEven 0.1 = ⟨1, -1⟩ := by decide +kernel
example : shortest .toEven (0.1 + 0.2) = ⟨30000000000000004, -17⟩ := by decide +kernel
example : shortest .up (Float.ofBits 1) = ⟨5, -324⟩ := by decide +kernel

end ScalableCongestion.Decimal
