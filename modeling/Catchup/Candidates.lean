import Catchup.Identity

/-! The peers to ask for an extension, in turn.

The front serves next and then moves to the back, so that a queue that stays the same is served
round and round. A peer that turns up later is put in front. A peer may stand in the queue more than
once; it is then served once for each place. -/

set_option autoImplicit false

namespace Catchup

structure Candidates where
  peers : List PeerId
  deriving DecidableEq, Repr

namespace Candidates

def empty : Candidates := ⟨[]⟩

def ofList (peers : List PeerId) : Candidates := ⟨peers⟩

def size (queue : Candidates) : Nat := queue.peers.length

def isEmpty (queue : Candidates) : Bool := queue.peers.isEmpty

def contains (queue : Candidates) (peer : PeerId) : Bool := queue.peers.contains peer

def front? (queue : Candidates) : Option PeerId := queue.peers.head?

def rotate (queue : Candidates) : Candidates := ⟨queue.peers.drop 1 ++ queue.peers.take 1⟩

@[simp] theorem rotate_cons (peer : PeerId) (rest : List PeerId) :
    rotate ⟨peer :: rest⟩ = ⟨rest ++ [peer]⟩ := rfl

/-- The peer to serve now, and the queue with that peer at the back. -/
def fetchNext (queue : Candidates) : Option (PeerId × Candidates) :=
  queue.front?.map fun peer => (peer, queue.rotate)

/-- Put a peer in front, unless it stands in the queue already. -/
def insert (queue : Candidates) (peer : PeerId) : Candidates :=
  if queue.contains peer then queue else ⟨peer :: queue.peers⟩

theorem getLast?_insert {queue : Candidates} {peer last : PeerId}
    (held : queue.peers.getLast? = some last) :
    (queue.insert peer).peers.getLast? = some last := by
  unfold insert
  split
  · exact held
  · rw [List.getLast?_cons, held, Option.getD_some]

/-- Move the peer to the back if it is in front, and say whether it was. -/
def rotatePast (queue : Candidates) (peer : PeerId) : Bool × Candidates :=
  if queue.front? = some peer then (true, queue.rotate) else (false, queue)

/-- Keep the peers of which `keep` holds, in their order, and count those dropped. -/
def retain (queue : Candidates) (keep : PeerId → Bool) : Nat × Candidates :=
  let kept := queue.peers.filter keep
  (queue.peers.length - kept.length, ⟨kept⟩)

@[simp] theorem peers_retain (queue : Candidates) (keep : PeerId → Bool) :
    (queue.retain keep).2.peers = queue.peers.filter keep := rfl

/-- The peer that serves after `turns` others, counting round and round. -/
def peekNth? (queue : Candidates) (turns : Nat) : Option PeerId :=
  queue.peers[turns % queue.size]?

@[simp] theorem peekNth?_zero (queue : Candidates) : queue.peekNth? 0 = queue.front? := by
  obtain ⟨peers⟩ := queue
  cases peers <;> simp [peekNth?, front?, size]

end Candidates

end Catchup
