import ScalableCongestion.CommandLine.Arguments
import ScalableCongestion.Replay.Run
import ScalableCongestion.Settings.Sources

/-! What an invocation prints and how it ends. The files it reads are given as a
function from paths to texts. -/
namespace ScalableCongestion

inductive CommandFault where
  | usage
  | badHex (cause : Text.HexFault)
  | badSettings (path : String) (cause : Fault)
  /-- an index in the name of a setting is outside its list -/
  | indexOutside
  | unreadableScenario (path : String)
  | badScenario
  | badOptions (cause : Text.HexFault)
  | refused (fault : Fault)
  | overflow

namespace CommandFault

def message : CommandFault → String
  | usage => "usage"
  | badHex _ => "Invalid hex input"
  | badSettings path _ => s!"Failed to load {path}"
  | indexOutside => "index outside a list"
  | unreadableScenario path => s!"Failed to read scenario {path}"
  | badScenario => "Invalid scenario"
  | badOptions _ => "Invalid option hex"
  | refused fault => fault.message
  | overflow => "overflow in a duration"

/-- What caused the failure, where the outermost message does not say it. -/
def cause? : CommandFault → Option String
  | badHex cause => some cause.message
  | badSettings _ cause => some cause.message
  | badOptions cause => some cause.message
  | _ => none

def exitCode : CommandFault → UInt8
  | usage => 2
  | indexOutside | overflow => 101
  | _ => 1

end CommandFault

structure Outcome where
  lines : List String
  fault : Option CommandFault

namespace Outcome

def printing (lines : List String) : Outcome := ⟨lines, none⟩

def failing (fault : CommandFault) : Outcome := ⟨[], some fault⟩

def exitCode (o : Outcome) : UInt8 :=
  match o.fault with
  | none => 0
  | some fault => fault.exitCode

end Outcome

def ReplayFault.commandFault : ReplayFault → CommandFault
  | badOptions cause => .badOptions cause
  | overflow => .overflow

structure Surroundings extends Settings.Files where
  environment : List (String × String)
  manual : Manual → List String

namespace Invocation

def encodedLine (ceBytes : UInt32) : String :=
  String.ofList (Text.Hex.encode (AceOption.encode ⟨ceBytes⟩))

def decode (hex : String) : Outcome :=
  match Text.Hex.decode (Text.trim hex.toList) with
  | .error cause => .failing (.badHex cause)
  | .ok bytes =>
    match AceOption.decode bytes with
    | .error cause => .failing (.refused (.malformedOption cause))
    | .ok o => .printing [o.describe]

def replayScenario (scenario : Scenario) (settings : Settings) : Outcome :=
  match Session.create (scenario.settings.getD settings) with
  | .error fault => .failing (.refused fault)
  | .ok session =>
    let (reports, fault) := session.replay scenario.steps
    ⟨reports.map Report.line, fault.map ReplayFault.commandFault⟩

def settings (world : Surroundings) : Option String → Except CommandFault Settings
  | none => .ok .default
  | some path => match Settings.load? world.toFiles path world.environment with
    | none => .error .indexOutside
    | some loaded => loaded.mapError (.badSettings path)

/-- The settings file is read before the scenario. -/
def replay (world : Surroundings) (settingsPath : Option String) (path : String) : Outcome :=
  match settings world settingsPath with
  | .error fault => .failing fault
  | .ok settings =>
    match world.read path with
    | none => .failing (.unreadableScenario path)
    | some text =>
      match Scenario.parse? text with
      | none => .failing .badScenario
      | some scenario => replayScenario scenario settings

def run (world : Surroundings) (i : Invocation) : Outcome :=
  match i.command with
  | .encode n => .printing [encodedLine n]
  | .decode hex => decode hex
  | .replay path => replay world i.settingsPath path

def paths (formats : List Settings.Format) (i : Invocation) : List String :=
  match i.command with
  | .replay path => path :: (match i.settingsPath with
    | none => []
    | some file => file :: formats.flatMap (·.extensions.filterMap (withExtension? file)))
  | _ => []

def runArguments (world : Surroundings) (args : List String) : Outcome :=
  match parse? args with
  | none => .failing .usage
  | some (.manual m) => .printing (world.manual m)
  | some (.run i) => i.run world

end Invocation

end ScalableCongestion
