import ScalableCongestion.Settings.Value

/-! Places in values. A key names one: behind a name, points lead to parts and
indices in brackets to items. A key that cannot be read so is one name. -/
namespace ScalableCongestion

inductive PlaceStep where
  | part (name : String)
  /-- an index below zero counts from the end -/
  | item (index : Int)
deriving DecidableEq, Repr

abbrev Place := List PlaceStep

namespace Place

/-! ## Keys -/

def isNameChar (c : Char) : Bool := c.isAlphanum || c == '_' || c == '-' || c == ' '

def isIndexChar (c : Char) : Bool := c.isDigit || c == '-'

def isIndexBlank (c : Char) : Bool := c == ' ' || c == '\t'

/-- An index of 64 bits up to its closing bracket, and the text behind it. -/
def index? (cs : List Char) : Option (Int × List Char) :=
  let cs := cs.dropWhile isIndexBlank
  match (cs.dropWhile isIndexChar).dropWhile isIndexBlank with
  | ']' :: rest => (Decimal.typedInteger? (cs.takeWhile isIndexChar)).map fun index => (index, rest)
  | _ => none

def spelled? : Nat → List Char → Option Place
  | 0, _ => none
  | _ + 1, [] => some []
  | fuel + 1, '.' :: rest =>
    let name := rest.takeWhile isNameChar
    if name.isEmpty then none
    else (spelled? fuel (rest.dropWhile isNameChar)).map (.part (String.ofList name) :: ·)
  | fuel + 1, '[' :: rest => do
    let (index, rest) ← index? rest
    let steps ← spelled? fuel rest
    return .item index :: steps
  | _ + 1, _ => none

def ofKey (key : String) : Place :=
  let cs := '.' :: key.toList
  (spelled? (cs.length + 1) cs).getD [.part key]

end Place

namespace SettingValue

/-! ## Putting a value at a place -/

def lengthOf : Option SettingValue → Nat
  | some (list length _) => length
  | _ => 0

def itemsOf : Option SettingValue → List (Nat × SettingValue)
  | some (list _ items) => items
  | _ => []

def withItem (earlier : Option SettingValue) (position : Nat) (item : SettingValue) :
    SettingValue :=
  list (max (lengthOf earlier) (position + 1)) (withPair (itemsOf earlier) position item)

/-- No list is longer: with 96 bytes for an item it would take 2^63 bytes. -/
def maxLength : Nat := (UInt64.size / 2 - 1) / 96

/-- The position that an index names in a list. There is none before the start. -/
def position? (index : Int) (length : Nat) : Option Nat :=
  if 0 ≤ index then if index.toNat < maxLength then some index.toNat else none
  else if index.natAbs ≤ length then some (length - index.natAbs) else none

/-- Puts a value at a place in an earlier one, or in nothing. Values on the way
that do not have the parts or items are replaced by ones that do. Without a
position for an index there is no result. -/
def put? (value : SettingValue) : Place → Option SettingValue → Option SettingValue
  | [], earlier => some (value.laidOver earlier)
  | .part name :: steps, earlier =>
    let parts := partsOf earlier
    (value.put? steps (parts.lookup name)).map fun part => table (withPair parts name part)
  | [.item index], earlier =>
    (position? index (lengthOf earlier)).map fun position => withItem earlier position value
  | .item index :: steps, earlier =>
    (position? index (lengthOf earlier)).bind fun position =>
      (value.put? steps ((itemsOf earlier).lookup position)).map (withItem earlier position)

end SettingValue

end ScalableCongestion
