import ScalableCongestion.Proofs.Json.Values
import ScalableCongestion.Replay.Report

/-! What a printed report says. A reader that has its own list of field names and
words gets the report back from its line: no field is lost, and the estimate is
the double nearest to the decimal that was printed. -/
namespace ScalableCongestion

namespace Json

/-- The values of an object whose members have these names, in this order. -/
def fieldsOf? (names : List String) : Json → Option (List Json)
  | object members =>
    if members.map (·.1) = names.map some then some (members.map (·.2)) else none
  | _ => none

theorem fieldsOf?_record (members : List (String × Json)) :
    fieldsOf? (members.map (·.1)) (record members) = some (members.map (·.2)) := by
  rw [record, fieldsOf?, if_pos (by simp only [List.map_map]; rfl), List.map_map]
  rfl

def natural? : Json → Option Nat
  | number ⟨false, digits, [], none⟩ => some (Decimal.natOfDigits digits)
  | _ => none

theorem natural?_natural (n : Nat) : natural? (natural n) = some n :=
  congrArg some (Decimal.natOfDigits_toDigits n)

def byte? (j : Json) : Option UInt8 :=
  j.natural?.bind fun n => if n < UInt8.size then some (UInt8.ofNat n) else none

theorem byte?_natural (n : UInt8) : byte? (natural n.toNat) = some n := by
  rw [byte?, natural?_natural, Option.bind_some, if_pos n.toNat_lt, UInt8.ofNat_toNat]

def double? : Json → Option (Option Float)
  | null => some none
  | number l => some (some l.nearest)
  | _ => none

theorem double?_ofFloat {x : Float} (h : x.isFinite = true) :
    double? (ofFloat x) = some (some x) := by
  rw [ofFloat, if_pos h, double?, nearest_lay h]

end Json

namespace Report

def algorithmOf? : String → Option Algorithm
  | "TcpLinuxReno" => some .reno
  | "TcpPrague" => some .prague
  | _ => none

def phaseOf? : String → Option Phase
  | "open" => some .normal
  | "disorder" => some .disorder
  | "cwr" => some .cwr
  | "recovery" => some .recovery
  | "loss" => some .loss
  | _ => none

def packetOf? (j : Json) : Option ControlPacket :=
  match j.fieldsOf? ["ack", "flags"] with
  | some [ack, flags] => do
    let ack ← ack.count?
    let flags ← flags.byte?
    return ⟨⟨ack⟩, flags⟩
  | _ => none

def ofJson? (j : Json) : Option Report :=
  match j.fieldsOf? ["step", "algorithm", "congestion_window", "ssthresh", "state", "alpha",
    "in_fallback", "control_packets"] with
  | some [step, algorithm, cwnd, ssthresh, phase, alpha, inFallback, .array packets] => do
    let step ← step.natural?
    let algorithm ← algorithm.text?.bind algorithmOf?
    let cwnd ← cwnd.count?
    let ssthresh ← ssthresh.count?
    let phase ← phase.text?.bind phaseOf?
    let alpha ← alpha.double?
    let inFallback ← inFallback.bool?
    let packets ← packets.mapM packetOf?
    return ⟨step, ⟨algorithm, cwnd, ssthresh, phase, alpha, inFallback⟩, packets⟩
  | _ => none

def ofLine? (line : String) : Option Report := (Json.parse? line).bind ofJson?

theorem algorithmOf?_transportName (a : Algorithm) : algorithmOf? a.transportName = some a := by
  cases a <;> rfl

theorem phaseOf?_name (p : Phase) : phaseOf? p.name = some p := by
  cases p <;> rfl

theorem double?_alphaJson {alpha : Option Float} (h : ∀ a ∈ alpha, a.isFinite = true) :
    (alphaJson alpha).double? = some alpha := by
  cases alpha with
  | none => rfl
  | some a => exact Json.double?_ofFloat (h a rfl)

theorem packetOf?_packetJson (p : ControlPacket) : packetOf? (packetJson p) = some p := by
  have hfields : (packetJson p).fieldsOf? ["ack", "flags"] =
      some [.natural p.ack.value.toNat, .natural p.flags.toNat] := Json.fieldsOf?_record _
  simp only [packetOf?, hfields, Json.count?_natural, Json.byte?_natural, Option.bind_eq_bind,
    Option.bind_some, Option.pure_def]

theorem printableItems_packets (packets : List ControlPacket) :
    Json.PrintableItems (packets.map packetJson) := by
  induction packets with
  | nil => trivial
  | cons p packets ih =>
      exact ⟨⟨rfl, Json.spelled_natural _, rfl, Json.spelled_natural _, trivial⟩, ih⟩

theorem printable_alphaJson (alpha : Option Float) : (alphaJson alpha).Printable := by
  cases alpha with
  | none => trivial
  | some a => exact Json.printable_ofFloat a

theorem printable_toJson (r : Report) : r.toJson.Printable :=
  ⟨rfl, Json.spelled_natural _, rfl, rfl, rfl, Json.spelled_natural _, rfl, Json.spelled_natural _,
    rfl, rfl, rfl, printable_alphaJson _, rfl, trivial, rfl, printableItems_packets _, trivial⟩

theorem mapM_map_of_inverse {read : β → Option α} {write : α → β} {items : List α}
    (h : ∀ a ∈ items, read (write a) = some a) : (items.map write).mapM read = some items := by
  induction items with
  | nil => rfl
  | cons a items ih =>
      obtain ⟨hfirst, hrest⟩ := List.forall_mem_cons.mp h
      rw [List.map_cons, List.mapM_cons, hfirst, ih hrest]
      rfl

theorem ofJson?_toJson {r : Report} (h : ∀ alpha ∈ r.summary.alpha, alpha.isFinite = true) :
    ofJson? r.toJson = some r := by
  have hfields : r.toJson.fieldsOf? ["step", "algorithm", "congestion_window", "ssthresh", "state",
      "alpha", "in_fallback", "control_packets"] = some [.natural r.step,
        .text r.summary.algorithm.transportName, .natural r.summary.cwnd.toNat,
        .natural r.summary.ssthresh.toNat, .text r.summary.phase.name, alphaJson r.summary.alpha,
        .bool r.summary.inFallback, .array (r.packets.map packetJson)] := Json.fieldsOf?_record _
  have hpackets : (r.packets.map packetJson).mapM packetOf? = some r.packets :=
    mapM_map_of_inverse fun p _ => packetOf?_packetJson p
  have halgorithm : (Json.text r.summary.algorithm.transportName).text?.bind algorithmOf? =
      some r.summary.algorithm := algorithmOf?_transportName _
  have hphase : (Json.text r.summary.phase.name).text?.bind phaseOf? = some r.summary.phase :=
    phaseOf?_name _
  simp only [ofJson?, hfields, hpackets, halgorithm, hphase, Json.natural?_natural,
    Json.count?_natural, double?_alphaJson h, Json.bool?, Option.bind_eq_bind, Option.bind_some,
    Option.pure_def]

/-- No field of a report is lost in print. -/
theorem ofLine?_line {r : Report} (h : ∀ alpha ∈ r.summary.alpha, alpha.isFinite = true) :
    ofLine? r.line = some r := by
  rw [ofLine?, line, Json.parse?_compact r.printable_toJson, Option.bind_some, ofJson?_toJson h]

end Report

end ScalableCongestion
