import ScalableCongestion.Settings.Document

/-! Scenarios: settings and the steps of a session, as a document. -/
namespace ScalableCongestion

/-- A step as a scenario gives it: option lists in hexadecimal, times in
milliseconds. -/
inductive ScenarioStep where
  | ace (ceBytes : UInt32)
  | options (hex : String)
  | acknowledge (segments : UInt32) (rttMillis : Float) (bytes : UInt32)
  | setPhase (phase : Phase) (bytesInFlight : UInt32)
  | signal (event : Signal)
  | setRcvNxt (seq : UInt32)

structure Scenario where
  settings : Option Settings
  steps : List ScenarioStep

namespace ScenarioStep

def ofFields? (type : String) (body : Json) : Option ScenarioStep :=
  match type with
  | "ace" => match body.fields? ["ce_bytes"] with
    | some [n] => (Json.required Json.count? n).map ace
    | _ => none
  | "options" => match body.fields? ["hex"] with
    | some [hex] => (Json.required Json.text? hex).map options
    | _ => none
  | "ack" => match body.fields? ["segments", "rtt_ms", "bytes"] with
    | some [segments, rtt, bytes] => do
      let segments ← Json.optional Json.count? 1 segments
      let rtt ← Json.optional Json.float? 0.0 rtt
      let bytes ← Json.required Json.count? bytes
      return acknowledge segments rtt bytes
    | _ => none
  | "state" => match body.fields? ["state", "bytes_in_flight"] with
    | some [phase, bytes] => do
      let phase ← Json.required (Json.storedChoice? Phase.ofName?) phase
      let bytes ← Json.optional Json.count? 0 bytes
      return setPhase phase bytes
    | _ => none
  | "event" => match body.fields? ["event"] with
    | some [event] => (Json.required (Json.storedChoice? Signal.ofName?) event).map signal
    | _ => none
  | "rcv_nxt" => match body.fields? ["seq"] with
    | some [seq] => (Json.required Json.count? seq).map setRcvNxt
    | _ => none
  | _ => none

/-- The type is a member of the object, or the first item of the array. -/
def ofJson? (j : Json) : Option ScenarioStep :=
  match j with
  | .object members => do
    let type ← Json.required Json.text? (← Json.member? members "type")
    ofFields? type (.object (members.filter fun m => m.1 != some "type"))
  | .array (type :: fields) => do
    let type ← Json.text? type
    ofFields? type (.array fields)
  | _ => none

/-- A step is kept as a whole until its type is known; it stands inside two
levels of the document. -/
def ofStored? (j : Json) : Option ScenarioStep := if j.storable 2 then ofJson? j else none

end ScenarioStep

namespace Scenario

def steps? : Json → Option (List ScenarioStep)
  | .array items => items.mapM ScenarioStep.ofStored?
  | _ => none

def settings? : Json → Option (Option Settings)
  | .null => some none
  | j => (Settings.ofJson? j).map some

def ofJson? (j : Json) : Option Scenario :=
  match j.fields? ["config", "steps"] with
  | some [settings, steps] => do
    let settings ← Json.optional settings? none settings
    let steps ← Json.required steps? steps
    return ⟨settings, steps⟩
  | _ => none

def parse? (text : String) : Option Scenario := (Json.parse? text).bind ofJson?

end Scenario

end ScalableCongestion
