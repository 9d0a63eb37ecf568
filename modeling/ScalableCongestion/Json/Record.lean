import ScalableCongestion.Json.Number

/-! Documents as records with given fields. A record is an object, whose other
members are passed over unread, or an array with the fields in order, of which
the last may be missing. -/
namespace ScalableCongestion.Json

/-- The one member of a name; a name may not occur twice. The outer `none` is
that error, the inner one a missing member. -/
def member? (members : List (Option String × Json)) (name : String) : Option (Option Json) :=
  match members.filter fun m => m.1 == some name with
  | [] => some none
  | [(_, value)] => some (some value)
  | _ => none

def membersOf? (members : List (Option String × Json)) (names : List String) :
    Option (List (Option Json)) :=
  if members.all (·.1.isSome) then names.mapM (member? members) else none

def itemsOf? (items : List Json) (names : List String) : Option (List (Option Json)) :=
  if items.length ≤ names.length then
    some (items.map some ++ List.replicate (names.length - items.length) none)
  else none

def fields? (names : List String) : Json → Option (List (Option Json))
  | object members => membersOf? members names
  | array items => itemsOf? items names
  | _ => none

def optional (read : Json → Option α) (missing : α) : Option Json → Option α
  | none => some missing
  | some j => read j

def required (read : Json → Option α) : Option Json → Option α
  | none => none
  | some j => read j

/-- One of several names, or an object whose only member has that name and is
`null`. -/
def choice? (ofName? : String → Option α) : Json → Option α
  | string (some name) => ofName? name
  | object [(some name, null)] => ofName? name
  | _ => none

/-- The same in a document that has been kept as a whole, where an empty object
counts as `null` too. -/
def storedChoice? (ofName? : String → Option α) : Json → Option α
  | object [(some name, object [])] => ofName? name
  | j => choice? ofName? j

def bool? : Json → Option Bool
  | bool b => some b
  | _ => none

def text? : Json → Option String
  | string s => s
  | _ => none

def float? : Json → Option Float
  | number l => (numberOf? l).map Number.toFloat
  | _ => none

def count? : Json → Option UInt32
  | number l => (numberOf? l).bind Number.count?
  | _ => none

end ScalableCongestion.Json
