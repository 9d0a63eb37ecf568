import ScalableCongestion.Duration
import ScalableCongestion.Marking.Codepoint
import ScalableCongestion.Saturating

/-! The part of a transport connection that congestion control reads and
writes: windows in bytes, sequence numbers, and the phase of recovery. -/
namespace ScalableCongestion

structure SequenceNumber where
  value : UInt32
deriving DecidableEq, Repr, Inhabited

def SequenceNumber.add (s : SequenceNumber) (bytes : UInt32) : SequenceNumber :=
  ⟨s.value + bytes⟩

inductive Phase where
  /-- nothing is wrong; its outside name is "open" -/
  | normal
  | disorder
  | cwr
  | recovery
  | loss
deriving DecidableEq, Repr, Inhabited

def Phase.name : Phase → String
  | normal => "open"
  | disorder => "disorder"
  | cwr => "cwr"
  | recovery => "recovery"
  | loss => "loss"

def Phase.all : List Phase := [normal, disorder, cwr, recovery, loss]

def Phase.ofName? (name : String) : Option Phase := all.find? fun p => p.name == name

/-- While lost data is being resent, windows and estimates stand still. -/
def Phase.isRecovering : Phase → Bool
  | recovery => true
  | loss => true
  | _ => false

inductive Signal where
  | transmitStart
  | windowRestart
  | cwrComplete
  | loss
  | unmarked
  | marked
  | delayedAck
  | immediateAck
deriving DecidableEq, Repr

namespace Signal

def name : Signal → String
  | transmitStart => "tx_start"
  | windowRestart => "cwnd_restart"
  | cwrComplete => "complete_cwr"
  | loss => "loss"
  | unmarked => "ecn_no_ce"
  | marked => "ecn_is_ce"
  | delayedAck => "delayed_ack"
  | immediateAck => "non_delayed_ack"

def all : List Signal :=
  [transmitStart, windowRestart, cwrComplete, loss, unmarked, marked, delayedAck, immediateAck]

def ofName? (name : String) : Option Signal := all.find? fun s => s.name == name

end Signal

/-- A bare acknowledgement that the transport is asked to send. -/
structure ControlPacket where
  ack : SequenceNumber
  flags : UInt8
deriving DecidableEq, Repr

namespace ControlPacket

def ackFlag : UInt8 := 0x10

def eceFlag : UInt8 := 0x40

def plain (ack : SequenceNumber) : ControlPacket := ⟨ack, ackFlag⟩

def withEcho (ack : SequenceNumber) : ControlPacket := ⟨ack, ackFlag ||| eceFlag⟩

def hasEcho (p : ControlPacket) : Bool := p.flags &&& eceFlag != 0

end ControlPacket

structure Connection where
  cwnd : UInt32
  ssthresh : UInt32
  segmentSize : UInt32
  phase : Phase
  ecnEnabled : Bool
  ecnMode : EcnMode
  ecnState : EcnState
  codepoint : Codepoint
  srtt : Duration
  rcvNxt : SequenceNumber
  sndNxt : SequenceNumber
deriving DecidableEq

namespace Connection

def initial (segmentSize cwnd : UInt32) : Connection where
  cwnd
  ssthresh := maxCount
  segmentSize
  phase := .normal
  ecnEnabled := false
  ecnMode := .classic
  ecnState := .idle
  codepoint := .notEct
  srtt := .zero
  rcvNxt := ⟨0⟩
  sndNxt := ⟨0⟩

instance : Inhabited Connection := ⟨initial 0 0⟩

def minWindow (c : Connection) : UInt32 := satMul c.segmentSize 2

/-- Both windows become `target`, or the smallest window if that is more. -/
def reduceTo (c : Connection) (target : UInt32) : Connection :=
  let window := max target c.minWindow
  { c with ssthresh := window, cwnd := window }

def halve (c : Connection) : Connection := c.reduceTo (c.cwnd / 2)

/-- The threshold for a staged reduction: half of the data in flight. -/
def stagedThreshold (c : Connection) (bytesInFlight : UInt32) : UInt32 :=
  max c.minWindow (bytesInFlight / 2)

def inSlowStart (c : Connection) : Bool := c.cwnd < c.ssthresh

def grow (c : Connection) (bytes : UInt32) : Connection :=
  { c with cwnd := satAdd c.cwnd bytes }

end Connection

end ScalableCongestion
