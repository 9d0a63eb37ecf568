import ScalableCongestion.Connection

/-! The receiver's half of feedback. One delayed acknowledgement may cover
marked and unmarked segments; when the marking changes while it is pending, an
acknowledgement of the segments before the change goes out at once, with the
echo flag if those segments were marked. -/
namespace ScalableCongestion

structure Echo where
  /-- whether the last segment was marked -/
  marking : Bool
  /-- the next expected sequence number when the last segment had arrived -/
  snapshot : Option SequenceNumber
  /-- whether a delayed acknowledgement is pending -/
  reserved : Bool
deriving DecidableEq, Repr

namespace Echo

def initial : Echo := ⟨false, none, false⟩

instance : Inhabited Echo := ⟨initial⟩

def reserve (e : Echo) (reserved : Bool) : Echo := { e with reserved }

def owed (e : Echo) (marked : Bool) : Option ControlPacket :=
  match e.snapshot with
  | none => none
  | some before =>
    if e.marking != marked && e.reserved then
      some (if e.marking then .withEcho before else .plain before)
    else none

/-- A segment has arrived and `rcvNxt` counts it. -/
def observe (e : Echo) (marked : Bool) (rcvNxt : SequenceNumber) : Option ControlPacket × Echo :=
  (e.owed marked, { e with marking := marked, snapshot := some rcvNxt })

end Echo

end ScalableCongestion
