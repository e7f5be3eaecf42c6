import Catchup.Ledger.Store
import Catchup.Message
import Catchup.Metric
import Catchup.Phase
import Catchup.Settings.Basic
import Catchup.TokenBucket

/-! The serving side of a node: it answers status and sync requests from its ledger, and tells peers
of new headers while the node is idle. -/

set_option autoImplicit false

namespace Catchup

structure Letter where
  peer : PeerId
  message : Message
  deriving DecidableEq, Repr

structure Responder (α : Type) where
  head : Header
  updateLimit : Nat
  limiter : TokenBucket α
  /-- How many headers have been told of; it decides which peers hear of the next one. -/
  announced : UInt64
  deriving Repr

namespace Responder

inductive Request where
  | status (peer : PeerId)
  | sync (peer : PeerId) (request : SyncRequest)
  /-- The ledger has committed up to the header, in that phase and at that time in nanoseconds. -/
  | ledgerUpdate (header : Header) (phase : PhaseKind) (now : Nat)
  deriving DecidableEq, Repr

structure Reply (α : Type) where
  responder : Responder α
  letters : List Letter
  metrics : List Metric
  deriving Repr

def start (settings : Settings) (head : Header) (now : Nat) : Responder Float :=
  { head, updateLimit := settings.updateLimit, limiter := .ofRate settings.updateRate now
    announced := 0 }

variable {α : Type} [Amount α]

/-- The peers to tell: as many as the limit allows, from a place that moves on by one each time. -/
def window (responder : Responder α) (peers : List PeerId) : List PeerId :=
  (peers.rotateLeft (responder.announced.toNat % peers.length)).take
    (min peers.length responder.updateLimit)

/-- Tell each peer in turn, as far as the limiter lets the news through; it is asked about the next
one also where it has refused. -/
def tell (news : Message) (now : Nat) : List PeerId → Responder α → Reply α
  | [], responder => ⟨responder, [], []⟩
  | peer :: rest, responder =>
    let (allowed, limiter) := responder.limiter.tryConsume now
    let reply := tell news now rest { responder with limiter }
    if allowed then { reply with letters := ⟨peer, news⟩ :: reply.letters }
    else { reply with metrics := .updateRateLimited :: reply.metrics }

@[simp] theorem head_tell (news : Message) (now : Nat) (peers : List PeerId)
    (responder : Responder α) :
    (responder.tell news now peers).responder.head = responder.head := by
  induction peers generalizing responder with
  | nil => rfl
  | cons peer rest ih =>
    simp only [tell]
    split <;> exact ih _

theorem message_of_tell {news : Message} {now : Nat} {peers : List PeerId}
    {responder : Responder α} {letter : Letter}
    (sent : letter ∈ (responder.tell news now peers).letters) : letter.message = news := by
  induction peers generalizing responder with
  | nil => cases sent
  | cons peer rest ih =>
    simp only [tell] at sent
    split at sent
    · rcases List.mem_cons.mp sent with rfl | sent
      · rfl
      · exact ih sent
    · exact ih sent

def onSyncRequest (ledger : Ledger) (responder : Responder α) (peer : PeerId)
    (request : SyncRequest) : Reply α :=
  match ledger.extensionFrom request.after with
  | some extension => ⟨responder, [⟨peer, .syncResponse ⟨extension⟩⟩], [.requestServed]⟩
  | none => ⟨responder, [], [.requestUnserved]⟩

/-- Adopt a header that is ahead; tell of it if the node is idle and has peers. -/
def onLedgerUpdate (directory : Directory) (responder : Responder α) (header : Header)
    (phase : PhaseKind) (now : Nat) : Reply α :=
  if header.isAheadOf responder.head then
    let responder := { responder with head := header }
    if phase ≠ .idle ∨ directory.peers.isEmpty then ⟨responder, [], []⟩
    else
      let window := responder.window directory.peers
      let reply := { responder with announced := responder.announced + 1 }.tell
        (.statusUpdate ⟨header⟩) now window
      { reply with metrics := reply.metrics ++ [.updatesSent reply.letters.length] }
  else ⟨responder, [], []⟩

def handle (ledger : Ledger) (directory : Directory) (responder : Responder α) :
    Request → Reply α
  | .status peer => ⟨responder, [⟨peer, .statusResponse ⟨responder.head⟩⟩], []⟩
  | .sync peer request => responder.onSyncRequest ledger peer request
  | .ledgerUpdate header phase now => responder.onLedgerUpdate directory header phase now

end Responder

end Catchup
