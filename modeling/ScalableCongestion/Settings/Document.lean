import ScalableCongestion.Json.Parser
import ScalableCongestion.Json.Printer
import ScalableCongestion.Json.Record
import ScalableCongestion.Settings.Basic

/-! Settings as a JSON document. -/
namespace ScalableCongestion

namespace Settings

def fieldNames : List String :=
  ["algorithm", "gain", "initial_alpha", "use_ect0", "segment_size", "initial_cwnd_segments"]

def ofJson? (j : Json) : Option Settings :=
  match j.fields? fieldNames with
  | some [algorithm, gain, initialAlpha, useEct0, segmentSize, initialSegments] => do
    let algorithm ← Json.optional (Json.choice? Algorithm.ofName?) default.algorithm algorithm
    let gain ← Json.optional Json.float? default.gain gain
    let initialAlpha ← Json.optional Json.float? default.initialAlpha initialAlpha
    let useEct0 ← Json.optional Json.bool? default.useEct0 useEct0
    let segmentSize ← Json.optional Json.count? default.segmentSize segmentSize
    let initialSegments ← Json.optional Json.count? default.initialSegments initialSegments
    return ⟨algorithm, gain, initialAlpha, useEct0, segmentSize, initialSegments⟩
  | _ => none

/-- Settings from the text of a document, without a look at their values. -/
def parse? (text : String) : Option Settings := (Json.parse? text).bind ofJson?

def toJson (s : Settings) : Json :=
  .record
    [("algorithm", .text s.algorithm.name),
      ("gain", .ofFloat s.gain),
      ("initial_alpha", .ofFloat s.initialAlpha),
      ("use_ect0", .bool s.useEct0),
      ("segment_size", .natural s.segmentSize.toNat),
      ("initial_cwnd_segments", .natural s.initialSegments.toNat)]

def savedText (s : Settings) : String := String.ofList s.toJson.pretty

end Settings

end ScalableCongestion
