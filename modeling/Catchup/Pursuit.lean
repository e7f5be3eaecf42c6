import Catchup.Candidates
import Catchup.Ledger.Header

/-! The pursuit of a target header: whom to ask next, and what has been asked. -/

set_option autoImplicit false

namespace Catchup

structure PendingRequest where
  peer : PeerId
  id : RequestId
  deriving DecidableEq, Repr

structure Pursuit where
  head : Header
  target : Header
  candidates : Candidates
  pending : Option PendingRequest
  deriving DecidableEq, Repr

namespace Pursuit

def ofPeers (head : Header) (peers : List PeerId) (target : Header) : Pursuit :=
  ⟨head, target, .ofList peers, none⟩

def isWaiting (pursuit : Pursuit) : Bool := pursuit.pending.isSome

def isWaitingFor (pursuit : Pursuit) (peer : PeerId) : Bool :=
  pursuit.pending.any fun pending => pending.peer = peer

/-- Is the ledger where it should be, or past it? -/
def isSynced (pursuit : Pursuit) : Bool := pursuit.target.version ≤ pursuit.head.version

/-- A request may go out only while no other is out. -/
def withPending (pursuit : Pursuit) (peer : PeerId) (id : RequestId) : Except Fault Pursuit :=
  match pursuit.pending with
  | none => .ok { pursuit with pending := some ⟨peer, id⟩ }
  | some _ => .error .requestAlreadyPending

def clearPending (pursuit : Pursuit) : Except Fault Pursuit :=
  match pursuit.pending with
  | some _ => .ok { pursuit with pending := none }
  | none => .error .noRequestPending

theorem withPending_of_none {pursuit : Pursuit} {peer : PeerId} {id : RequestId}
    (free : pursuit.pending = none) :
    pursuit.withPending peer id = .ok { pursuit with pending := some ⟨peer, id⟩ } := by
  simp [withPending, free]

theorem clearPending_of_isWaiting {pursuit : Pursuit} (waiting : pursuit.isWaiting = true) :
    pursuit.clearPending = .ok { pursuit with pending := none } := by
  obtain ⟨pending, held⟩ := Option.isSome_iff_exists.mp waiting
  simp [clearPending, held]

def withHead (pursuit : Pursuit) (head : Header) : Pursuit := { pursuit with head }

/-- Raise the target; it is never lowered. -/
def withTarget (pursuit : Pursuit) (target : Header) : Pursuit :=
  if target.isAheadOf pursuit.target then { pursuit with target } else pursuit

def withCandidate (pursuit : Pursuit) (peer : PeerId) : Pursuit :=
  { pursuit with candidates := pursuit.candidates.insert peer }

end Pursuit

end Catchup
