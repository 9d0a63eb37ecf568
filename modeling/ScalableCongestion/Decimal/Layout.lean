import ScalableCongestion.Decimal.Literal

/-! How the digits of a double are written out. A layout is a record of the
choices; `Layout.message` is the one of messages and `Layout.document` the one
of documents. -/
namespace ScalableCongestion.Decimal

structure Layout where
  tie : Tie
  /-- whether a number whose first digit stands for `10 ^ e` has no exponent part -/
  positional : Int → Bool
  /-- whether a whole number ends in a point and a zero -/
  keepsPoint : Bool

namespace Layout

/-- Messages never use an exponent part. -/
def message : Layout := ⟨.up, fun _ => true, false⟩

/-- Documents write out up to five zeros behind the point and up to sixteen
digits before it. -/
def document : Layout := ⟨.toEven, fun e => -5 ≤ e && e ≤ 15, true⟩

end Layout

def zeros (n : Nat) : List Char := List.replicate n '0'

/-- The digits with the point `places` digits behind the first of them. -/
def layPositional (layout : Layout) (negative : Bool) (digits : List Char) (places : Int) :
    Literal :=
  if places < 0 then ⟨negative, ['0'], zeros (-places - 1).toNat ++ digits, none⟩
  else
    let whole := places.toNat + 1
    if whole < digits.length then ⟨negative, digits.take whole, digits.drop whole, none⟩
    else
      ⟨negative, digits ++ zeros (whole - digits.length),
        if layout.keepsPoint then ['0'] else [], none⟩

def layScientific (negative : Bool) (digits : List Char) (places : Int) : Literal :=
  ⟨negative, digits.take 1, digits.drop 1,
    some ⟨decide (places < 0), Nat.toDigits 10 places.natAbs⟩⟩

def layNumeral (layout : Layout) (negative : Bool) (n : Numeral) : Literal :=
  let digits := Nat.toDigits 10 n.coefficient
  let places := (digits.length : Int) - 1 + n.exponent
  if layout.positional places then layPositional layout negative digits places
  else layScientific negative digits places

def lay (layout : Layout) (x : Float) : Literal :=
  let b := Binary.ofFloat x
  layNumeral layout b.negative (if b.mantissa = 0 then ⟨0, 0⟩ else shortest layout.tie x.abs)

example : (lay .document 1.0).text = "1.0".toList := by decide +kernel
example : (lay .document 0.00001).text = "0.00001".toList := by decide +kernel
example : (lay .document 0.000001).text = "1e-6".toList := by decide +kernel
example : (lay .document 1e16).text = "1e+16".toList := by decide +kernel
example : (lay .message (-0.0000001)).text = "-0.0000001".toList := by decide +kernel

def messageText (x : Float) : String :=
  if x.isNaN then "NaN"
  else if x.isFinite then String.ofList (lay .message x).text
  else if x < 0.0 then "-inf" else "inf"

end ScalableCongestion.Decimal
