/-! Bytes as pairs of hexadecimal digits. -/
namespace ScalableCongestion.Text

inductive HexFault where
  | oddLength
  /-- the byte at a position is no digit -/
  | invalidByte (byte : UInt8) (position : Nat)
deriving DecidableEq, Repr

def quoteByte (b : UInt8) : String :=
  let c := Char.ofNat b.toNat
  let body :=
    if c = '\t' then "\\t"
    else if c = '\r' then "\\r"
    else if c = '\n' then "\\n"
    else if c = '\'' then "\\'"
    else if c = '\\' then "\\\\"
    else if b = 0 then "\\0"
    else if b < 0x20 || (0x7F ≤ b && b < 0xA1) || b = 0xAD then
      "\\u\x7b" ++ String.ofList (Nat.toDigits 16 b.toNat) ++ "\x7d"
    else c.toString
  "'" ++ body ++ "'"

def HexFault.message : HexFault → String
  | oddLength => "Odd number of digits"
  | invalidByte byte position =>
    "Invalid character " ++ quoteByte byte ++ s!" at position {position}"

namespace Hex

def digitValue? (b : UInt8) : Option Nat :=
  let n := b.toNat
  if 0x30 ≤ n ∧ n ≤ 0x39 then some (n - 0x30)
  else if 0x41 ≤ n ∧ n ≤ 0x46 then some (n - 0x41 + 10)
  else if 0x61 ≤ n ∧ n ≤ 0x66 then some (n - 0x61 + 10)
  else none

/-- The value of the digit at a position. -/
def digitAt (b : UInt8) (position : Nat) : Except HexFault Nat :=
  match digitValue? b with
  | some d => .ok d
  | none => .error (.invalidByte b position)

def decodePairs (position : Nat) : List UInt8 → Except HexFault (List UInt8)
  | [] => .ok []
  | [_] => .error .oddLength
  | high :: low :: rest => do
    let h ← digitAt high position
    let l ← digitAt low (position + 1)
    let bytes ← decodePairs (position + 2) rest
    return UInt8.ofNat (16 * h + l) :: bytes

/-- An odd length is noticed before any byte that is no digit. -/
def decodeBytes (text : List UInt8) : Except HexFault (List UInt8) :=
  if text.length % 2 = 1 then .error .oddLength else decodePairs 0 text

/-- Lengths and positions count the bytes of the text. -/
def decode (cs : List Char) : Except HexFault (List UInt8) :=
  decodeBytes (cs.flatMap String.utf8EncodeChar)

def encodeByte (b : UInt8) : List Char :=
  [(b.toNat / 16).digitChar, (b.toNat % 16).digitChar]

def encode (bytes : List UInt8) : List Char := bytes.flatMap encodeByte

end Hex

end ScalableCongestion.Text
