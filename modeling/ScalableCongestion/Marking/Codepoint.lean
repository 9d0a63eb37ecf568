/-! The two ECN bits of an IP header and the ECN side of a connection's state. -/
namespace ScalableCongestion

inductive Codepoint where
  | notEct
  | ect0
  | ect1
  | ce
deriving DecidableEq, Repr, Inhabited

namespace Codepoint

def toBits : Codepoint → UInt8
  | notEct => 0
  | ect1 => 1
  | ect0 => 2
  | ce => 3

/-- Only the two low bits count. -/
def ofBits (bits : UInt8) : Codepoint :=
  match bits.toNat % 4 with
  | 0 => notEct
  | 1 => ect1
  | 2 => ect0
  | _ => ce

/-- L4S traffic is told apart by ECT(1), unless ECT(0) is asked for. -/
def forL4S (useEct0 : Bool) : Codepoint := if useEct0 then ect0 else ect1

def isEct (c : Codepoint) : Bool := c == ect0 || c == ect1

def isCe (c : Codepoint) : Bool := c == ce

def name : Codepoint → String
  | notEct => "not_ect"
  | ect0 => "ect0"
  | ect1 => "ect1"
  | ce => "ce"

def all : List Codepoint := [notEct, ect0, ect1, ce]

def ofName? (name : String) : Option Codepoint := all.find? fun c => c.name == name

theorem ofBits_toBits (c : Codepoint) : ofBits c.toBits = c := by
  cases c <;> rfl

end Codepoint

inductive EcnMode where
  | classic
  | dctcp
deriving DecidableEq, Repr, Inhabited

namespace EcnMode

def name : EcnMode → String
  | classic => "classic"
  | dctcp => "dctcp"

def all : List EcnMode := [classic, dctcp]

def ofName? (name : String) : Option EcnMode := all.find? fun m => m.name == name

end EcnMode

/-- Where a connection stands in echoing or answering marks. -/
inductive EcnState where
  | idle
  | ceReceived
  | sendingEce
  | eceReceived
  | cwrSent
deriving DecidableEq, Repr, Inhabited

namespace EcnState

def name : EcnState → String
  | idle => "idle"
  | ceReceived => "ce_rcvd"
  | sendingEce => "sending_ece"
  | eceReceived => "ece_rcvd"
  | cwrSent => "cwr_sent"

def all : List EcnState := [idle, ceReceived, sendingEce, eceReceived, cwrSent]

def ofName? (name : String) : Option EcnState := all.find? fun s => s.name == name

end EcnState

end ScalableCongestion
