import ScalableCongestion.Json.Document

/-! Numbers of a document as values. Whole numbers that fit 64 bits are exact.
All others become doubles in two roundings: the digits are taken into a 64-bit
number as far as they fit, and the double nearest to it is scaled by the double
nearest to a power of ten. -/
namespace ScalableCongestion.Json

inductive Number where
  | natural (n : Nat)
  | negative (n : Int)
  | real (x : Float)

def significandBound : Nat := UInt64.size

/-- Takes digits into a number until one no longer fits; the digits that are
left come second. -/
def absorb (n : Nat) : List Char → Nat × List Char
  | [] => (n, [])
  | c :: cs =>
    let next := n * 10 + (c.toNat - '0'.toNat)
    if next < significandBound then absorb next cs else (n, c :: cs)

def powerOfTen (k : Nat) : Float := OfScientific.ofScientific 1 false k

/-- The largest exponent of ten that a double can have. -/
def maxPower : Nat := 308

/-- Divides by a power of ten, in two steps if the power is no double. What two
steps do not reach is zero, since no significand comes up to `2 ^ 64`. -/
def scaleDown (x : Float) (k : Nat) : Float :=
  if k ≤ maxPower then x / powerOfTen k
  else if k ≤ 2 * maxPower then x / powerOfTen maxPower / powerOfTen (k - maxPower)
  else 0.0

def scaleUp? (x : Float) (k : Nat) : Option Float :=
  if k ≤ maxPower then
    let y := x * powerOfTen k
    if y.isInf then none else some y
  else if x == 0.0 then some x
  else none

def scale? (x : Float) : Int → Option Float
  | .ofNat k => scaleUp? x k
  | .negSucc k => some (scaleDown x (k + 1))

def realOf? (l : Decimal.Literal) : Option Float :=
  let (whole, overflow) := absorb 0 l.whole
  let (significand, dropped) := absorb whole l.fraction
  let taken : Int := (l.fraction.length : Int) - dropped.length
  let exponent := l.exponentValue + overflow.length - taken
  (scale? (Float.ofNat significand) exponent).map fun x => if l.negative then -x else x

/-- The value of a written number, if it is in range. A zero with a sign is a
double, since no integer has one. -/
def numberOf? (l : Decimal.Literal) : Option Number :=
  if l.fraction.isEmpty ∧ l.exponent = none then
    let n := Decimal.natOfDigits l.whole
    if !l.negative && n < significandBound then some (.natural n)
    else if l.negative && n != 0 && n ≤ UInt64.size / 2 then some (.negative (-n))
    else if n < significandBound then some (.real (-(Float.ofNat n)))
    else (realOf? l).map .real
  else (realOf? l).map .real

def Number.toFloat : Number → Float
  | natural n => Float.ofNat n
  | negative n => Float.ofInt n
  | real x => x

def Number.count? : Number → Option UInt32
  | natural n => if n < UInt32.size then some (UInt32.ofNat n) else none
  | _ => none

mutual

def readable : Json → Bool
  | number literal => (numberOf? literal).isSome
  | string s => s.isSome
  | array items => readableItems items
  | object members => readableMembers members
  | _ => true

def readableItems : List Json → Bool
  | [] => true
  | item :: items => readable item && readableItems items

def readableMembers : List (Option String × Json) → Bool
  | [] => true
  | (name, value) :: members => name.isSome && readable value && readableMembers members

end

/-- Documents that are kept as a whole may be nested 127 deep. -/
def depthLimit : Nat := 127

def storable (outer : Nat) (j : Json) : Bool := j.readable && j.depth + outer ≤ depthLimit

end ScalableCongestion.Json
