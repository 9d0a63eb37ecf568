import ScalableCongestion.Json.Printer
import ScalableCongestion.Session

/-! The report of one replayed step, as a line of text. -/
namespace ScalableCongestion

structure Report where
  step : Nat
  summary : Summary
  packets : List ControlPacket

namespace Report

def packetJson (p : ControlPacket) : Json :=
  .record [("ack", .natural p.ack.value.toNat), ("flags", .natural p.flags.toNat)]

def alphaJson : Option Float → Json
  | none => .null
  | some alpha => .ofFloat alpha

def toJson (r : Report) : Json :=
  .record
    [("step", .natural r.step),
      ("algorithm", .text r.summary.algorithm.transportName),
      ("congestion_window", .natural r.summary.cwnd.toNat),
      ("ssthresh", .natural r.summary.ssthresh.toNat),
      ("state", .text r.summary.phase.name),
      ("alpha", alphaJson r.summary.alpha),
      ("in_fallback", .bool r.summary.inFallback),
      ("control_packets", .array (r.packets.map packetJson))]

def line (r : Report) : String := String.ofList r.toJson.compact

end Report

end ScalableCongestion
