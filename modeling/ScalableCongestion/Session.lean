import ScalableCongestion.Control.Controller
import ScalableCongestion.Delay.SmoothedRtt
import ScalableCongestion.Marking.Mailbox
import ScalableCongestion.Marking.OptionList

/-! A session: the congestion control of one connection, with the mailbox for
reported marks, the round-trip averages, and the queue of acknowledgements that
the controller asked for. A transport feeds it steps in the order of time. -/
namespace ScalableCongestion

structure Session where
  connection : Connection
  controller : Controller
  mailbox : Mailbox
  rtt : SmoothedRtt
  /-- packets that are still to be sent, the oldest first -/
  outbox : List ControlPacket

instance : Inhabited Session := ⟨default, default, default, default, []⟩

inductive Step where
  | aceOption (option : AceOption)
  | segmentOptions (bytes : List UInt8)
  | acknowledge (segments : UInt32) (rtt : Duration) (bytes : UInt32)
  | setPhase (phase : Phase) (bytesInFlight : UInt32)
  | signal (signal : Signal)
  | poll
  | setRcvNxt (seq : SequenceNumber)
  | setSndNxt (seq : SequenceNumber)

namespace Session

def create (s : Settings) : Except Fault Session := do
  s.validate
  let controller ← Controller.create s
  let (controller, connection) := controller.init (.initial s.segmentSize s.initialCwnd)
  return ⟨connection, controller, .empty, .initial, []⟩

def receiveAce (s : Session) (o : AceOption) : Session :=
  { s with mailbox := s.mailbox.deposit o }

def receiveOptions (s : Session) (bytes : List UInt8) : Session :=
  match findAce? bytes with
  | none => s
  | some o => s.receiveAce o

/-- Takes a round trip into the averages; a round trip of zero is no measurement. -/
def measure? (s : Session) (rtt : Duration) : Option Session :=
  if rtt.isZero then some s
  else (s.rtt.update? rtt).map fun (srtt, averages) =>
    { s with rtt := averages, connection := { s.connection with srtt } }

/-- An acknowledgement takes the pending count with it, whatever the phase.
`none` if a time computed on the way is no duration. -/
def acknowledge? (s : Session) (segments : UInt32) (rtt : Duration) (bytes : UInt32) :
    Option Session := do
  let s ← s.measure? rtt
  let (ceBytes, mailbox) := s.mailbox.take
  let (controller, connection) ←
    s.controller.acknowledge? s.connection ⟨segments, rtt, ceBytes, bytes⟩
  return { s with mailbox, controller, connection }

def signal (s : Session) (event : Signal) : Session :=
  let (packet, controller, connection) := s.controller.signal s.connection event
  { s with controller, connection, outbox := s.outbox ++ packet.toList }

/-- Entering a reduction sets the threshold, and leaving it for normal operation
brings the window down to it. -/
def setPhase (s : Session) (phase : Phase) (bytesInFlight : UInt32) : Session :=
  let before := s.connection
  if before.phase = phase then s
  else
    let ssthresh :=
      if phase = .cwr then s.controller.stagedThreshold before bytesInFlight
      else before.ssthresh
    let entered := { before with ssthresh, phase }
    if before.phase = .cwr ∧ phase = .normal then
      { s with connection := { entered with cwnd := max ssthresh entered.minWindow } }.signal
        .cwrComplete
    else { s with connection := entered }

def poll (s : Session) : Option ControlPacket × Session :=
  match s.outbox with
  | [] => (none, s)
  | packet :: rest => (some packet, { s with outbox := rest })

def setRcvNxt (s : Session) (seq : SequenceNumber) : Session :=
  { s with connection := { s.connection with rcvNxt := seq } }

def setSndNxt (s : Session) (seq : SequenceNumber) : Session :=
  { s with connection := { s.connection with sndNxt := seq } }

def step? (s : Session) : Step → Option (Option ControlPacket × Session)
  | .aceOption o => some (none, s.receiveAce o)
  | .segmentOptions bytes => some (none, s.receiveOptions bytes)
  | .acknowledge segments rtt bytes => (s.acknowledge? segments rtt bytes).map (none, ·)
  | .setPhase phase bytesInFlight => some (none, s.setPhase phase bytesInFlight)
  | .signal event => some (none, s.signal event)
  | .poll => some s.poll
  | .setRcvNxt seq => some (none, s.setRcvNxt seq)
  | .setSndNxt seq => some (none, s.setSndNxt seq)

def run? (s : Session) : List Step → Option (List ControlPacket × Session)
  | [] => some ([], s)
  | step :: steps => do
    let (packet, next) ← s.step? step
    let (packets, last) ← next.run? steps
    return (packet.toList ++ packets, last)

def summary (s : Session) : Summary := s.controller.summary s.connection

end Session

end ScalableCongestion
