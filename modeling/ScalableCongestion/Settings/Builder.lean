import ScalableCongestion.Settings.Basic

/-! Settings built up choice by choice. Every field starts at its default, and only
the finished settings are checked. -/
namespace ScalableCongestion.Settings

inductive Choice where
  | algorithm (algorithm : Algorithm)
  | gain (gain : Float)
  | initialAlpha (initialAlpha : Float)
  | useEct0 (useEct0 : Bool)
  | segmentSize (segmentSize : UInt32)
  | initialSegments (initialSegments : UInt32)

def set (s : Settings) : Choice → Settings
  | .algorithm algorithm => { s with algorithm }
  | .gain gain => { s with gain }
  | .initialAlpha initialAlpha => { s with initialAlpha }
  | .useEct0 useEct0 => { s with useEct0 }
  | .segmentSize segmentSize => { s with segmentSize }
  | .initialSegments initialSegments => { s with initialSegments }

/-- Of several choices for a field the last one stays. -/
def setAll (s : Settings) (choices : List Choice) : Settings := choices.foldl set s

def build (choices : List Choice) : Except Fault Settings := (default.setAll choices).validated

end ScalableCongestion.Settings
