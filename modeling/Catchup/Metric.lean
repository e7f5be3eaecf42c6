import Catchup.Identity

/-! The events that a node counts, and the gauges it sets. -/

set_option autoImplicit false

namespace Catchup

inductive Metric where
  | versions (current target : Version) (syncing : Bool)
  | statusRequestsSent (count : Nat)
  | checkCompleted (answers : Nat)
  | requestSent
  | requestTimedOut
  | responseAccepted
  | responseUnsolicited (label : String)
  | peerBanned (label : String)
  | commitOverdue
  | requestServed
  | requestUnserved
  | updatesSent (count : Nat)
  | updateRateLimited
  deriving DecidableEq, Repr

end Catchup
