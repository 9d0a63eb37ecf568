import ScalableCongestion.Decimal.Shortest

/-! Decimal numbers as they are written, digit by digit, and the double nearest
to one. -/
namespace ScalableCongestion.Decimal

structure ExponentPart where
  negative : Bool
  digits : List Char
deriving DecidableEq, Repr

/-- A written number; a whole number has no fraction digits. -/
structure Literal where
  negative : Bool
  whole : List Char
  fraction : List Char
  exponent : Option ExponentPart
deriving DecidableEq, Repr

def natOfDigits (digits : List Char) : Nat := Nat.ofDigitChars 10 digits 0

namespace ExponentPart

def value (e : ExponentPart) : Int :=
  if e.negative then -(natOfDigits e.digits : Int) else natOfDigits e.digits

def text (e : ExponentPart) : List Char := 'e' :: (if e.negative then '-' else '+') :: e.digits

end ExponentPart

namespace Literal

def exponentValue (l : Literal) : Int :=
  match l.exponent with
  | none => 0
  | some e => e.value

def numeral (l : Literal) : Numeral :=
  ⟨natOfDigits (l.whole ++ l.fraction), l.exponentValue - l.fraction.length⟩

def text (l : Literal) : List Char :=
  (if l.negative then ['-'] else []) ++ l.whole ++
    (if l.fraction.isEmpty then [] else '.' :: l.fraction) ++
    (match l.exponent with
      | none => []
      | some e => e.text)

end Literal

/-- The double nearest to a numeral, found without writing out a power of ten
that is far out of range. -/
def Numeral.nearest (n : Numeral) : Float :=
  let places : Int := (Nat.toDigits 10 n.coefficient).length + n.exponent
  if n.coefficient = 0 ∨ places < -400 then 0.0
  else if 400 < places then 1.0 / 0.0
  else n.toFloat

def Literal.nearest (l : Literal) : Float :=
  if l.negative then -l.numeral.nearest else l.numeral.nearest

end ScalableCongestion.Decimal
