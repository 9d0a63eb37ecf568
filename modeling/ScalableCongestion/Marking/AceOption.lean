import ScalableCongestion.Fault

/-! The Accurate ECN option, in which a receiver reports how many bytes arrived
with a mark: a kind byte, a length byte, and the count in network byte order. -/
namespace ScalableCongestion

structure AceOption where
  ceBytes : UInt32
deriving DecidableEq, Repr, Inhabited

namespace AceOption

def kind : UInt8 := 15

def length : UInt8 := 6

def wordBytes (n : UInt32) : List UInt8 :=
  [UInt8.ofNat (n.toNat / 16777216), UInt8.ofNat (n.toNat / 65536),
    UInt8.ofNat (n.toNat / 256), UInt8.ofNat n.toNat]

def wordOfBytes (a b c d : UInt8) : UInt32 :=
  UInt32.ofNat (((a.toNat * 256 + b.toNat) * 256 + c.toNat) * 256 + d.toNat)

def encode (o : AceOption) : List UInt8 := kind :: length :: wordBytes o.ceBytes

def appendTo (o : AceOption) (written : List UInt8) : List UInt8 :=
  written ++ [kind] ++ [length] ++ wordBytes o.ceBytes

/-- Bytes after the option are not looked at. -/
def decode (bytes : List UInt8) : Except OptionFault AceOption :=
  match bytes with
  | k :: l :: rest =>
    if k ≠ kind then .error (.unexpectedKind k)
    else if l ≠ length then .error (.unexpectedLength l)
    else match rest with
      | a :: b :: c :: d :: _ => .ok ⟨wordOfBytes a b c d⟩
      | _ => .error (.truncated bytes.length)
  | _ => .error (.truncated bytes.length)

def describe (o : AceOption) : String := s!"ACE (CE-Bytes={o.ceBytes})"

theorem wordOfBytes_wordBytes (n : UInt32) :
    wordOfBytes (UInt8.ofNat (n.toNat / 16777216)) (UInt8.ofNat (n.toNat / 65536))
      (UInt8.ofNat (n.toNat / 256)) (UInt8.ofNat n.toNat) = n := by
  apply UInt32.toNat_inj.mp
  have := n.toNat_lt
  simp only [wordOfBytes, UInt32.toNat_ofNat', UInt8.toNat_ofNat']
  omega

theorem wordBytes_wordOfBytes (a b c d : UInt8) :
    wordBytes (wordOfBytes a b c d) = [a, b, c, d] := by
  have ha := a.toNat_lt
  have hb := b.toNat_lt
  have hc := c.toNat_lt
  have hd := d.toNat_lt
  simp only [wordBytes, wordOfBytes, UInt32.toNat_ofNat', List.cons.injEq, and_true,
    ← UInt8.toNat_inj, UInt8.toNat_ofNat']
  omega

end AceOption

end ScalableCongestion
