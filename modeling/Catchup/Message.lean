import Catchup.Ledger.Extension

/-! The messages that nodes exchange. -/

set_option autoImplicit false

namespace Catchup

structure StatusRequest where
  deriving DecidableEq, Repr

structure StatusResponse where
  header : Header
  deriving DecidableEq, Repr

/-- Asks for the extension that follows the header `after`. -/
structure SyncRequest where
  after : Header
  id : RequestId
  deriving DecidableEq, Repr

structure SyncResponse where
  extension : Extension
  deriving DecidableEq, Repr

/-- Tells a peer about a new header without being asked. -/
structure StatusUpdate where
  header : Header
  deriving DecidableEq, Repr

inductive Message where
  | statusRequest (request : StatusRequest)
  | statusResponse (response : StatusResponse)
  | syncRequest (request : SyncRequest)
  | syncResponse (response : SyncResponse)
  | statusUpdate (update : StatusUpdate)
  deriving DecidableEq, Repr

def Message.kind : Message → String
  | .statusRequest _ => "status_request"
  | .statusResponse _ => "status_response"
  | .syncRequest _ => "sync_request"
  | .syncResponse _ => "sync_response"
  | .statusUpdate _ => "status_update"

end Catchup
