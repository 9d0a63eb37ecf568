import ScalableCongestion.Decimal.Typed
import ScalableCongestion.Json.Number
import ScalableCongestion.Settings.Document

/-! Values from outside before the type of their setting is known, and their
conversion to it. -/
namespace ScalableCongestion

inductive SettingValue where
  | null
  | bool (value : Bool)
  | integer (value : Int)
  | real (value : Float)
  | text (value : String)
  /-- items by their positions, null at the others -/
  | list (length : Nat) (items : List (Nat × SettingValue))
  /-- a value made of parts with different names -/
  | table (parts : List (String × SettingValue))

/-- The only letters that count are those of ASCII. One other character, the
Kelvin sign, has such a letter as its lowercase. -/
def lowercase (s : String) : String :=
  s.map fun c => if c = '\u212A' then 'k' else c.toLower

namespace SettingValue

instance : Inhabited SettingValue := ⟨null⟩

/-- Whole numbers beyond 63 bits are doubles. -/
def ofNumber : Json.Number → SettingValue
  | .natural n => if n < UInt64.size / 2 then integer n else real (Float.ofNat n)
  | .negative n => integer n
  | .real x => real x

mutual

def ofJson : Json → SettingValue
  | .null => null
  | .bool b => bool b
  | .number l => match Json.numberOf? l with
    | some n => ofNumber n
    | none => null
  | .string s => text (s.getD "")
  | .array items => list items.length (ofItems 0 items)
  | .object members => table (ofMembers members)

def ofItems (position : Nat) : List Json → List (Nat × SettingValue)
  | [] => []
  | item :: items => (position, ofJson item) :: ofItems (position + 1) items

/-- Only the last of several members with one name counts. -/
def ofMembers : List (Option String × Json) → List (String × SettingValue)
  | [] => []
  | (name, value) :: members =>
    let parts := ofMembers members
    let name := name.getD ""
    if parts.any (·.1 == name) then parts else (name, ofJson value) :: parts

end

def ofText (s : String) : SettingValue :=
  if lowercase s = "true" then bool true
  else if lowercase s = "false" then bool false
  else match Decimal.typedInteger? s.toList with
    | some n => integer n
    | none => match Decimal.typedFloat? s.toList with
      | some x => real x
      | none => text s

/-! ## Values over values -/

def partsOf : Option SettingValue → List (String × SettingValue)
  | some (table parts) => parts
  | _ => []

/-- A pair in the place of those with its key. -/
def withPair [BEq κ] (pairs : List (κ × SettingValue)) (key : κ) (value : SettingValue) :
    List (κ × SettingValue) :=
  (key, value) :: pairs.filter (·.1 != key)

mutual

/-- A value in the place of an earlier one. The parts of a table go over the
earlier ones one by one, so that a table without parts changes nothing. -/
def laidOver : SettingValue → Option SettingValue → SettingValue
  | table parts, earlier => partsLaidOver parts (earlier.getD (table []))
  | value, _ => value

def partsLaidOver : List (String × SettingValue) → SettingValue → SettingValue
  | [], earlier => earlier
  | (name, value) :: parts, earlier =>
    let name := lowercase name
    let there := partsOf (some earlier)
    partsLaidOver parts (table (withPair there name (value.laidOver (there.lookup name))))

end

/-! ## Conversion -/

def switch? (s : String) : Option Bool :=
  if ["true", "on", "yes"].contains (lowercase s) then some true
  else if ["false", "off", "no"].contains (lowercase s) then some false
  else none

def toFloat? : SettingValue → Option Float
  | bool b => some (if b then 1.0 else 0.0)
  | integer n => some (Float.ofInt n)
  | real x => some x
  | text s => match switch? s with
    | some b => some (if b then 1.0 else 0.0)
    | none => Decimal.typedFloat? s.toList
  | _ => none

def countOfInt? (n : Int) : Option UInt32 :=
  if 0 ≤ n ∧ n < UInt32.size then some (UInt32.ofNat n.toNat) else none

/-- Rounds half away from zero; below zero, and for NaN, nothing is counted. -/
def roundedCount (x : Float) : Nat :=
  let b := Binary.ofFloat x
  if x.isNaN || b.negative then 0 else b.roundTimes 1 true

def toCount? : SettingValue → Option UInt32
  | bool b => some (if b then 1 else 0)
  | integer n => countOfInt? n
  | real x => countOfInt? (roundedCount x)
  | text s => match switch? s with
    | some b => some (if b then 1 else 0)
    | none => (Decimal.typedNatural? s.toList).bind fun n => countOfInt? n
  | _ => none

def toBool? : SettingValue → Option Bool
  | bool b => some b
  | integer n => some (n != 0)
  | real x => some (!(x == 0.0))
  | text s =>
    if s = "1" then some true
    else if s = "0" then some false
    else switch? s
  | _ => none

/-- A name in any case, by itself or as the name of the only part. -/
def toAlgorithm? : SettingValue → Option Algorithm
  | text s => Algorithm.ofName? (lowercase s)
  | table [(name, _)] => Algorithm.ofName? (lowercase name)
  | _ => none

end SettingValue

end ScalableCongestion
