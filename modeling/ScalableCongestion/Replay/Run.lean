import ScalableCongestion.Replay.Report
import ScalableCongestion.Replay.Scenario
import ScalableCongestion.Text.Blank
import ScalableCongestion.Text.Hex

/-! Replaying a scenario: its steps drive a session, and every step that works
gives a report with the packets it queued. -/
namespace ScalableCongestion

inductive ReplayFault where
  | badOptions (cause : Text.HexFault)
  /-- a time that no duration holds -/
  | overflow
deriving DecidableEq, Repr

/-- A time in milliseconds, rounded to whole nanoseconds, ties to even. Times
below zero count as zero. -/
def Duration.ofMillis? (millis : Float) : Option Duration :=
  let positive := if 0.0 < millis then millis else 0.0
  ofNanos? ((Binary.ofFloat (positive / 1000.0)).roundTimes nanosPerSecond false)

namespace ScenarioStep

def orOverflow : Option α → Except ReplayFault α
  | some a => .ok a
  | none => .error .overflow

def apply (s : Session) : ScenarioStep → Except ReplayFault Session
  | ace n => .ok (s.receiveAce ⟨n⟩)
  | options hex =>
    match Text.Hex.decode (Text.trim hex.toList) with
    | .ok bytes => .ok (s.receiveOptions bytes)
    | .error cause => .error (.badOptions cause)
  | acknowledge segments millis bytes =>
    orOverflow ((Duration.ofMillis? millis).bind fun rtt => s.acknowledge? segments rtt bytes)
  | setPhase phase bytesInFlight => .ok (s.setPhase phase bytesInFlight)
  | signal event => .ok (s.signal event)
  | setRcvNxt seq => .ok (s.setRcvNxt ⟨seq⟩)

end ScenarioStep

namespace Session

def drain (s : Session) : List ControlPacket × Session := (s.outbox, { s with outbox := [] })

/-- The reports of the steps, numbered from `index`, up to the first that fails. -/
def replayFrom (index : Nat) (s : Session) : List ScenarioStep → List Report × Option ReplayFault
  | [] => ([], none)
  | step :: steps =>
    match step.apply s with
    | .error fault => ([], some fault)
    | .ok moved =>
      let (packets, next) := moved.drain
      let (reports, fault) := next.replayFrom (index + 1) steps
      (⟨index, next.summary, packets⟩ :: reports, fault)

def replay (s : Session) (steps : List ScenarioStep) : List Report × Option ReplayFault :=
  s.replayFrom 0 steps

end Session

end ScalableCongestion
