import ScalableCongestion.Marking.AceOption

/-! Lists of TCP options: single no-operation bytes, and options made of a kind,
a length that counts the whole option, and data. A list ends at its end byte,
or where its bytes do not form an option any more. -/
namespace ScalableCongestion

inductive OptionItem where
  | noOperation
  | option (kind : UInt8) (data : List UInt8)
deriving DecidableEq, Repr

namespace OptionItem

def endKind : UInt8 := 0

def noOperationKind : UInt8 := 1

def next? : List UInt8 → Option (OptionItem × List UInt8)
  | [] => none
  | kind :: rest =>
    if kind = endKind then none
    else if kind = noOperationKind then some (noOperation, rest)
    else match rest with
      | [] => none
      | length :: body =>
        let dataLength := length.toNat - 2
        if 2 ≤ length.toNat ∧ dataLength ≤ body.length then
          some (option kind (body.take dataLength), body.drop dataLength)
        else none

theorem length_lt_of_next? {bytes rest : List UInt8} {item : OptionItem}
    (h : next? bytes = some (item, rest)) : rest.length < bytes.length := by
  unfold next? at h
  split at h
  · contradiction
  · split at h
    · contradiction
    · split at h
      · cases h; simp
      · split at h
        · contradiction
        · dsimp only at h
          split at h
          · cases h; simp; omega
          · contradiction

def ace? : OptionItem → Option AceOption
  | option kind data =>
    if kind = AceOption.kind then
      match data with
      | [a, b, c, d] => some ⟨AceOption.wordOfBytes a b c d⟩
      | _ => none
    else none
  | noOperation => none

end OptionItem

def optionItems (bytes : List UInt8) : List OptionItem :=
  match h : OptionItem.next? bytes with
  | none => []
  | some (item, rest) =>
    have := OptionItem.length_lt_of_next? h
    item :: optionItems rest
termination_by bytes.length

/-- The first ACE option of the right length in an option list. -/
def findAce? (bytes : List UInt8) : Option AceOption :=
  (optionItems bytes).findSome? OptionItem.ace?

end ScalableCongestion
