import ScalableCongestion.Decimal.Literal

/-! Numbers as people type them into settings and arguments: an optional sign
and no blanks. -/
namespace ScalableCongestion.Decimal

def splitSign : List Char → Bool × List Char
  | '-' :: rest => (true, rest)
  | '+' :: rest => (false, rest)
  | cs => (false, cs)

def allDigits (cs : List Char) : Bool := !cs.isEmpty && cs.all Char.isDigit

def typedInteger? (cs : List Char) : Option Int :=
  let (negative, digits) := splitSign cs
  if allDigits digits then
    let n := natOfDigits digits
    if negative then if n ≤ UInt64.size / 2 then some (-n) else none
    else if n < UInt64.size / 2 then some n else none
  else none

/-- A whole number of 64 bits; a plus may stand before it. -/
def typedNatural? (cs : List Char) : Option Nat :=
  let digits := match cs with
    | '+' :: rest => rest
    | rest => rest
  if allDigits digits then
    let n := natOfDigits digits
    if n < UInt64.size then some n else none
  else none

def typedExponent? : List Char → Option (Option ExponentPart)
  | [] => some none
  | c :: rest =>
    let (negative, digits) := splitSign rest
    if (c = 'e' ∨ c = 'E') ∧ allDigits digits then some (some ⟨negative, digits⟩) else none

/-- Digits with a point anywhere or nowhere, and perhaps an exponent. -/
def typedLiteral? (negative : Bool) (cs : List Char) : Option Literal :=
  let whole := cs.takeWhile Char.isDigit
  let rest := cs.dropWhile Char.isDigit
  let (fraction, rest) := match rest with
    | '.' :: rest => (rest.takeWhile Char.isDigit, rest.dropWhile Char.isDigit)
    | rest => ([], rest)
  if whole.isEmpty && fraction.isEmpty then none
  else (typedExponent? rest).map fun exponent => ⟨negative, whole, fraction, exponent⟩

def infinity : Float := 1.0 / 0.0

def notANumber : Float := 0.0 / 0.0

def typedWord? (negative : Bool) (cs : List Char) : Option Float :=
  let word := String.ofList (cs.map Char.toLower)
  if word = "inf" ∨ word = "infinity" then some (if negative then -infinity else infinity)
  else if word = "nan" then some notANumber
  else none

def typedFloat? (cs : List Char) : Option Float :=
  let (negative, rest) := splitSign cs
  match typedLiteral? negative rest with
  | some l => some l.nearest
  | none => typedWord? negative rest

end ScalableCongestion.Decimal
