import ScalableCongestion.Control.Prague

/-! The settings of a connection's congestion control. -/
namespace ScalableCongestion

inductive Algorithm where
  | reno
  | prague
deriving DecidableEq, Repr

namespace Algorithm

instance : Inhabited Algorithm := ⟨prague⟩

def name : Algorithm → String
  | reno => "reno"
  | prague => "prague"

def all : List Algorithm := [reno, prague]

def ofName? (name : String) : Option Algorithm := all.find? fun a => a.name == name

/-- The names under which transports know the algorithms. -/
def transportName : Algorithm → String
  | reno => "TcpLinuxReno"
  | prague => "TcpPrague"

def ofText (text : String) : Except Fault Algorithm :=
  let lower := text.map Char.toLower
  if lower = "reno" ∨ lower = "tcplinuxreno" then .ok reno
  else if lower = "prague" ∨ lower = "tcpprague" then .ok prague
  else .error (.settings (.unknownAlgorithm lower))

end Algorithm

structure Settings where
  algorithm : Algorithm
  gain : Float
  initialAlpha : Float
  useEct0 : Bool
  segmentSize : UInt32
  initialSegments : UInt32

namespace Settings

def default : Settings where
  algorithm := .prague
  gain := Estimator.defaultGain
  initialAlpha := Estimator.defaultAlpha
  useEct0 := false
  segmentSize := 1448
  initialSegments := 10

instance : Inhabited Settings := ⟨default⟩

def initialCwnd (s : Settings) : UInt32 := satMul s.segmentSize s.initialSegments

def fault? (s : Settings) : Option SettingsFault :=
  if !inUnit s.gain then some (.outsideUnit .gain s.gain)
  else if !inUnit s.initialAlpha then some (.outsideUnit .initialAlpha s.initialAlpha)
  else if s.segmentSize = 0 then some (.zeroCount .segmentSize)
  else if s.initialSegments = 0 then some (.zeroCount .initialSegments)
  else none

def validate (s : Settings) : Except Fault Unit :=
  match s.fault? with
  | none => .ok ()
  | some fault => .error (.settings fault)

def validated (s : Settings) : Except Fault Settings := s.validate.map fun _ => s

end Settings

end ScalableCongestion
