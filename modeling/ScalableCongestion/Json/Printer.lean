import ScalableCongestion.Decimal.Layout
import ScalableCongestion.Json.Document

/-! Writing documents, without blanks or with one member a line. Names and texts
that cannot be read are written empty. -/
namespace ScalableCongestion.Json

def escapeChar (c : Char) : List Char :=
  if c = '"' then ['\\', '"']
  else if c = '\\' then ['\\', '\\']
  else if c = '\x08' then ['\\', 'b']
  else if c = '\x0c' then ['\\', 'f']
  else if c = '\n' then ['\\', 'n']
  else if c = '\r' then ['\\', 'r']
  else if c = '\t' then ['\\', 't']
  else if c.toNat < 0x20 then
    ['\\', 'u', '0', '0', (c.toNat / 16).digitChar, (c.toNat % 16).digitChar]
  else [c]

def quote (s : Option String) : List Char :=
  '"' :: (s.getD "").toList.flatMap escapeChar ++ ['"']

def boolText (b : Bool) : List Char := if b then "true".toList else "false".toList

/-- Where a way of writing puts blanks: in front of items, members and closing
brackets, by their level, and behind colons. -/
structure Spacing where
  before : Nat → List Char
  afterColon : List Char
  before_blank : ∀ level, ∀ c ∈ before level, isSpace c = true
  afterColon_blank : ∀ c ∈ afterColon, isSpace c = true

namespace Spacing

def none : Spacing := ⟨fun _ => [], [], fun _ => List.forall_mem_nil _, List.forall_mem_nil _⟩

def newline (level : Nat) : List Char := '\n' :: List.replicate (2 * level) ' '

theorem isSpace_newline (level : Nat) : ∀ c ∈ newline level, isSpace c = true := by
  intro c hc
  rcases List.mem_cons.mp hc with rfl | hc
  · rfl
  · rw [List.eq_of_mem_replicate hc]
    rfl

def lines : Spacing := ⟨newline, [' '], isSpace_newline, List.forall_mem_singleton.mpr rfl⟩

end Spacing

mutual

def write (s : Spacing) (level : Nat) : Json → List Char
  | null => "null".toList
  | bool b => boolText b
  | number l => l.text
  | string s => quote s
  | array [] => ['[', ']']
  | array (item :: items) =>
    '[' :: s.before (level + 1) ++ write s (level + 1) item ++ writeItems s level items
  | object [] => ['\x7b', '\x7d']
  | object ((name, value) :: members) =>
    '\x7b' :: s.before (level + 1) ++ quote name ++ ':' :: s.afterColon ++
      write s (level + 1) value ++ writeMembers s level members

def writeItems (s : Spacing) (level : Nat) : List Json → List Char
  | [] => s.before level ++ [']']
  | item :: items =>
    ',' :: s.before (level + 1) ++ write s (level + 1) item ++ writeItems s level items

def writeMembers (s : Spacing) (level : Nat) : List (Option String × Json) → List Char
  | [] => s.before level ++ ['\x7d']
  | (name, value) :: members =>
    ',' :: s.before (level + 1) ++ quote name ++ ':' :: s.afterColon ++
      write s (level + 1) value ++ writeMembers s level members

end

def compact : Json → List Char := write .none 0

def pretty : Json → List Char := write .lines 0

/-- A double, or `null` for one that no number of a document stands for. -/
def ofFloat (x : Float) : Json :=
  if x.isFinite then number (Decimal.lay .document x) else null

end ScalableCongestion.Json
