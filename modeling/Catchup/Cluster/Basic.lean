import Catchup.Node

/-! A simulated cluster: nodes that exchange messages and set timers on one virtual clock.

Events are processed one after another, by the time they are due and then by the order in which they
were scheduled. Nodes may be silent, so that they answer no sync request, or malicious, so that they
tamper with every extension they serve. -/

set_option autoImplicit false

namespace Catchup

inductive Event where
  | deliver (sender receiver : PeerId) (message : Message)
  | input (node : PeerId) (input : Input)
  | ledgerUpdate (node : PeerId) (header : Header)
  deriving DecidableEq, Repr

structure Scheduled where
  due : Nat
  number : Nat
  event : Event
  deriving DecidableEq, Repr

structure SentRequest where
  sender : PeerId
  receiver : PeerId
  id : RequestId
  deriving DecidableEq, Repr

structure Ban where
  node : PeerId
  peer : PeerId
  reason : Misconduct
  deriving DecidableEq, Repr

structure Priority where
  node : PeerId
  peer : PeerId
  deriving DecidableEq, Repr

structure Cluster where
  /-- The node at position `n` goes by the name `n`. -/
  nodes : List Node
  /-- What is to come, in the order in which it will be processed. -/
  agenda : List Scheduled
  scheduled : Nat
  now : Nat
  silent : PeerSet
  malicious : PeerSet
  requests : List SentRequest
  bans : List Ban
  priorities : List Priority
  deriving Repr

namespace Cluster

/-- How long a message takes from one node to another. -/
def latency : Nat := 10_000_000

/-- The time from the commit of an extension to the report of it. -/
def commitDelay : Nat := 1_000_000

def nodeId (position : Nat) : PeerId := ⟨UInt64.ofNat position⟩

/-- All nodes know each other; each holds as many transactions of the shared generated history as
its version says. -/
def start (settings : Settings) (versions : List Nat) : Cluster :=
  let names := (List.range versions.length).map nodeId
  let nodes := versions.zipIdx.map fun (version, position) =>
    Node.start settings (.generated version)
      (.ofList (names.filter (· ≠ nodeId position))) 0
  { nodes, agenda := [], scheduled := 0, now := 0, silent := .empty, malicious := .empty
    requests := [], bans := [], priorities := [] }

def node? (cluster : Cluster) (name : PeerId) : Option Node := cluster.nodes[name.number.toNat]?

def setNode (cluster : Cluster) (name : PeerId) (node : Node) : Cluster :=
  { cluster with nodes := cluster.nodes.set name.number.toNat node }

/-- Put an event behind everything that is due no later. -/
def place (entry : Scheduled) (agenda : List Scheduled) : List Scheduled :=
  agenda.takeWhile (·.due ≤ entry.due) ++ entry :: agenda.dropWhile (·.due ≤ entry.due)

def schedule (cluster : Cluster) (delay : Nat) (event : Event) : Cluster :=
  let number := cluster.scheduled + 1
  { cluster with
    scheduled := number, agenda := place ⟨cluster.now + delay, number, event⟩ cluster.agenda }

def send (cluster : Cluster) (sender receiver : PeerId) (message : Message) : Cluster :=
  cluster.schedule latency (.deliver sender receiver message)

/-- A ban also takes the peer out of the node's directory. -/
def ban (cluster : Cluster) (name peer : PeerId) (reason : Misconduct) : Cluster :=
  let cluster := match cluster.node? name with
    | some node => cluster.setNode name { node with directory := node.directory.erase peer }
    | none => cluster
  { cluster with bans := cluster.bans ++ [⟨name, peer, reason⟩] }

def execute (name : PeerId) (cluster : Cluster) : Output → Cluster
  | .sendStatusRequest peer => cluster.send name peer (.statusRequest {})
  | .sendSyncRequest peer request =>
    let sent : SentRequest := ⟨name, peer, request.id⟩
    { cluster with requests := cluster.requests ++ [sent] }.send name peer (.syncRequest request)
  | .schedule timeout delay => cluster.schedule delay (.input name timeout.input)
  | .ban peer reason _ => cluster.ban name peer reason
  | .prioritize peer => { cluster with priorities := cluster.priorities ++ [⟨name, peer⟩] }

def report (name : PeerId) (cluster : Cluster) (header : Header) : Cluster :=
  cluster.schedule commitDelay (.ledgerUpdate name header)

/-- Carry out what a node asks for, and report what it has committed. -/
def conclude (cluster : Cluster) (name : PeerId) (outcome : Node.Outcome) : Cluster :=
  outcome.committed.foldl (report name)
    (outcome.outputs.foldl (execute name) (cluster.setNode name outcome.node))

/-- Give an input to a node. An input to an unknown node is lost. -/
def applyInput (cluster : Cluster) (name : PeerId) (input : Input) : Except Fault Cluster :=
  match cluster.node? name with
  | none => .ok cluster
  | some node => (node.handle .trusting input).map (cluster.conclude name)

def forgedTransaction : Transaction := ⟨"forged".toUTF8.toList⟩

def forge (extension : Extension) : Extension :=
  { extension with
    transactions := match extension.transactions with
      | [] => []
      | _ :: rest => forgedTransaction :: rest }

/-- A malicious node replaces the first transaction of every extension it serves. -/
def tamper : Message → Message
  | .syncResponse ⟨extension⟩ => .syncResponse ⟨forge extension⟩
  | message => message

/-- Send a letter of a node; a malicious one tampers with it. -/
def post (name : PeerId) (cluster : Cluster) (letter : Letter) : Cluster :=
  cluster.send name letter.peer
    (if cluster.malicious.contains name then tamper letter.message else letter.message)

def applyRequest (cluster : Cluster) (name : PeerId) (request : Responder.Request) : Cluster :=
  match cluster.node? name with
  | none => cluster
  | some node =>
    let (node, letters, _) := node.serve request
    letters.foldl (post name) (cluster.setNode name node)

/-- Hand a message over, unless it is a sync request to a silent node. -/
def deliver (cluster : Cluster) (sender receiver : PeerId) (message : Message) :
    Except Fault Cluster :=
  match message.errand sender with
  | .serve request@(.sync ..) =>
    .ok (if cluster.silent.contains receiver then cluster
      else cluster.applyRequest receiver request)
  | .serve request => .ok (cluster.applyRequest receiver request)
  | .take input => cluster.applyInput receiver input

def process (cluster : Cluster) : Event → Except Fault Cluster
  | .deliver sender receiver message => cluster.deliver sender receiver message
  | .input name input => cluster.applyInput name input
  | .ledgerUpdate name header => do
    let cluster ← cluster.applyInput name (.ledgerUpdate header)
    return match cluster.node? name with
      | none => cluster
      | some node => cluster.applyRequest name (.ledgerUpdate header node.phaseKind cluster.now)

/-- Give an input to a node at once. -/
def input (cluster : Cluster) (name : PeerId) (input : Input) : Cluster :=
  cluster.schedule 0 (.input name input)

def silence (cluster : Cluster) (name : PeerId) : Cluster :=
  { cluster with silent := cluster.silent.insert name }

def corrupt (cluster : Cluster) (name : PeerId) : Cluster :=
  { cluster with malicious := cluster.malicious.insert name }

/-- Transactions of the shared history, appended on one node as if they were produced there. -/
def commitLocal (cluster : Cluster) (name : PeerId) (count : Nat) :
    Except Fault (Header × Cluster) :=
  match cluster.node? name with
  | none => .error .unknownNode
  | some node =>
    let first := node.ledger.version.toNat
    if UInt64.size ≤ first + count then .error .additionOverflow
    else do
      let (appended, ledger) := node.ledger.append
        ((List.range count).map fun offset => .generated (first + offset))
      let header ← appended
      return (header,
        (cluster.setNode name { node with ledger }).schedule 0 (.ledgerUpdate name header))

/-- Change the peers that a node is connected to; what the change answers is passed on. -/
def rewire (cluster : Cluster) (name : PeerId) (change : PeerSet → Bool × PeerSet) :
    Except Fault (Bool × Cluster) :=
  match cluster.node? name with
  | none => .error .unknownNode
  | some node =>
    let (answer, node) := node.rewire change
    .ok (answer, cluster.setNode name node)

end Cluster

end Catchup
