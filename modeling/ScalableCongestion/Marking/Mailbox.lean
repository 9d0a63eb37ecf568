import ScalableCongestion.Marking.AceOption

/-! The latest reported count, held until an acknowledgement takes it. -/
namespace ScalableCongestion

structure Mailbox where
  pending : UInt32
deriving DecidableEq, Repr

namespace Mailbox

def empty : Mailbox := ⟨0⟩

instance : Inhabited Mailbox := ⟨empty⟩

/-- A count that nobody has taken yet is replaced. -/
def deposit (_ : Mailbox) (o : AceOption) : Mailbox := ⟨o.ceBytes⟩

def take (m : Mailbox) : UInt32 × Mailbox := (m.pending, empty)

end Mailbox

end ScalableCongestion
