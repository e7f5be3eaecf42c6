import Catchup.Responder
import Catchup.Synchronizer.Step

/-! A node: its ledger, the peers it is connected to, and the two sides that work on them. -/

set_option autoImplicit false

namespace Catchup

structure Node where
  ledger : Ledger
  directory : PeerSet
  synchronizer : Synchronizer
  responder : Responder Float
  deriving Repr

namespace Node

def start (settings : Settings) (ledger : Ledger) (directory : PeerSet) (now : Nat) : Node :=
  { ledger, directory, synchronizer := .start settings ledger.header
    responder := .start settings ledger.header now }

def phaseKind (node : Node) : PhaseKind := node.synchronizer.phase.kind

structure Outcome where
  node : Node
  outputs : List Output
  /-- Headers that the ledger has committed meanwhile; they still have to be reported. -/
  committed : List Header
  metrics : List Metric
  deriving Repr

def handle (proofs : Proofs) (node : Node) (input : Input) : Except Fault Outcome := do
  let judge := Verification.judge proofs Ledger.committer
  let (reaction, ledger) ← node.synchronizer.handle judge node.directory node.ledger input
  let (committed, ledger) := ledger.takeUnreported
  return { node := { node with ledger, synchronizer := reaction.synchronizer }
           outputs := reaction.outputs, committed, metrics := reaction.metrics }

def serve (node : Node) (request : Responder.Request) : Node × List Letter × List Metric :=
  let reply := node.responder.handle node.ledger node.directory request
  ({ node with responder := reply.responder }, reply.letters, reply.metrics)

/-- Change the peers that a node is connected to; what the change answers is passed on. -/
def rewire (node : Node) (change : PeerSet → Bool × PeerSet) : Bool × Node :=
  let (answer, directory) := change node.directory
  (answer, { node with directory })

end Node

inductive Errand where
  | serve (request : Responder.Request)
  | take (input : Input)
  deriving DecidableEq, Repr

def Message.errand (sender : PeerId) : Message → Errand
  | .statusRequest _ => .serve (.status sender)
  | .syncRequest request => .serve (.sync sender request)
  | .statusResponse response => .take (.statusResponse sender response.header)
  | .syncResponse response => .take (.syncResponse sender response.extension)
  | .statusUpdate update => .take (.advertisement sender update.header)

end Catchup
