import ScalableCongestion.Decimal.Literal

/-! JSON documents as they are written: numbers keep their digits, objects keep
the order of their members and repeated names, and a text whose escapes name
half a surrogate pair is kept as unreadable. -/
namespace ScalableCongestion

inductive Json where
  | null
  | bool (value : Bool)
  | number (literal : Decimal.Literal)
  | string (text : Option String)
  | array (items : List Json)
  | object (members : List (Option String × Json))

namespace Json

instance : Inhabited Json := ⟨null⟩

def isSpace (c : Char) : Bool := c == ' ' || c == '\t' || c == '\n' || c == '\r'

def text (s : String) : Json := string (some s)

def record (members : List (String × Json)) : Json :=
  object (members.map fun (name, value) => (some name, value))

def natural (n : Nat) : Json := number ⟨false, Nat.toDigits 10 n, [], none⟩

mutual

def depth : Json → Nat
  | array items => depthItems items + 1
  | object members => depthMembers members + 1
  | _ => 0

def depthItems : List Json → Nat
  | [] => 0
  | item :: items => max (depth item) (depthItems items)

def depthMembers : List (Option String × Json) → Nat
  | [] => 0
  | (_, value) :: members => max (depth value) (depthMembers members)

end

end Json

end ScalableCongestion
