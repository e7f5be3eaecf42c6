import Catchup.Node
import Catchup.Timers

/-! A running node: its mailbox, its timers, the network behind it, and a log of what it has done.

An event is handled to its end before the next one: the outputs are carried out, then the headers
that the ledger has committed meanwhile are reported to both sides of the node, then the status is
published. -/

set_option autoImplicit false

namespace Catchup

inductive NetworkError where
  | notConnected (peer : PeerId)
  | queueFull (peer : PeerId)
  deriving DecidableEq, Repr

def NetworkError.message : NetworkError → String
  | .notConnected peer => "peer " ++ peer.label ++ " is not connected"
  | .queueFull peer => "outbound queue to " ++ peer.label ++ " is full"

inductive MailboxError where
  | closed
  | full
  deriving DecidableEq, Repr

def MailboxError.message : MailboxError → String
  | .closed => "Event channel closed"
  | .full => "Event channel full"

inductive Mail where
  | message (peer : PeerId) (message : Message)
  | timeout (timeout : Timeout)
  /-- The ledger has committed up to the header by itself. -/
  | ledgerUpdate (header : Header)
  | localRequest (target : Header) (peers : List PeerId)
  deriving DecidableEq, Repr

/-- What a running node has done to its surroundings, and when. -/
inductive LogEntry where
  | sent (time : Nat) (peer : PeerId) (message : Message) (arrived : Bool)
  | banned (time : Nat) (peer : PeerId) (reason : Misconduct) (duration : Nat)
  | prioritized (time : Nat) (peer : PeerId)
  deriving DecidableEq, Repr

inductive Ending where
  | asked
  | broken (fault : Fault)
  deriving DecidableEq, Repr

structure Runner where
  node : Node
  proofs : Proofs
  timers : Timers
  mailbox : List Mail
  capacity : Nat
  /-- Peers that nothing can be sent to. -/
  unreachable : PeerSet
  now : Nat
  /-- When the next status check is due; it waits for the first whole millisecond from then on. -/
  nextCheck : Nat
  /-- The time as the limiter of status updates reads it; that clock is not the one of the
  timers. -/
  limiterClock : Nat
  published : Status
  /-- Has nobody asked the node to stop? -/
  wanted : Bool
  ending : Option Ending
  /-- The newest entry first. -/
  log : List LogEntry
  /-- The newest first. -/
  metrics : List Metric

namespace Runner

/-- A node that has just started. Its first status check is due one whole interval later, however
long that is; where there is no time between checks, the run breaks off at once. -/
def start (settings : Settings) (ledger : Ledger) (directory unreachable : PeerSet)
    (proofs : Proofs) (capacity : Nat) : Runner :=
  let node := Node.start settings ledger directory 0
  { node, proofs, timers := .empty, mailbox := [], capacity, unreachable, now := 0
    nextCheck := settings.checkInterval, limiterClock := 0, published := node.synchronizer.status
    wanted := true
    ending := if settings.checkInterval = 0 then some (.broken .noCheckInterval) else none
    log := [], metrics := [] }

/-- The most pieces of mail that a mailbox can be made for. -/
def largestMailbox : Nat := 2305843009213693951

def launch (settings : Settings) (ledger : Ledger) (directory unreachable : PeerSet)
    (proofs : Proofs) (capacity : Nat) : Except Fault Runner :=
  if capacity = 0 then .error .mailboxTooSmall
  else if largestMailbox < capacity then .error .mailboxTooLarge
  else .ok (start settings ledger directory unreachable proofs capacity)

def stopped (runner : Runner) : Bool := runner.ending.isSome

def send (runner : Runner) (peer : PeerId) (message : Message) : Runner :=
  { runner with
    log := .sent runner.now peer message (!runner.unreachable.contains peer) :: runner.log }

/-- A ban also takes the peer out of the directory, for good. -/
def ban (runner : Runner) (peer : PeerId) (reason : Misconduct) (duration : Nat) : Runner :=
  { runner with
    node := { runner.node with directory := runner.node.directory.erase peer }
    log := .banned runner.now peer reason duration :: runner.log }

def execute (runner : Runner) : Output → Runner
  | .sendStatusRequest peer => runner.send peer (.statusRequest {})
  | .sendSyncRequest peer request => runner.send peer (.syncRequest request)
  | .schedule timeout delay =>
    { runner with timers := runner.timers.schedule runner.now timeout delay }
  | .ban peer reason duration => runner.ban peer reason duration
  | .prioritize peer => { runner with log := .prioritized runner.now peer :: runner.log }

def serve (runner : Runner) (request : Responder.Request) : Runner :=
  let (node, letters, metrics) := runner.node.serve request
  letters.foldl (fun runner letter => runner.send letter.peer letter.message)
    { runner with node, metrics := metrics.reverse ++ runner.metrics }

@[simp] theorem ledger_execute (runner : Runner) (output : Output) :
    (runner.execute output).node.ledger = runner.node.ledger := by
  cases output <;> rfl

@[simp] theorem ledger_foldl_execute (outputs : List Output) (runner : Runner) :
    (outputs.foldl execute runner).node.ledger = runner.node.ledger := by
  induction outputs generalizing runner with
  | nil => rfl
  | cons output rest ih => rw [List.foldl_cons, ih, ledger_execute]

@[simp] theorem ledger_serve (runner : Runner) (request : Responder.Request) :
    (runner.serve request).node.ledger = runner.node.ledger := by
  have kept (letters : List Letter) (runner : Runner) :
      (letters.foldl (fun runner letter => runner.send letter.peer letter.message)
        runner).node.ledger = runner.node.ledger := by
    induction letters generalizing runner with
    | nil => rfl
    | cons letter rest ih => exact ih _
  exact kept _ _

/-- Give the node an input and carry out what it asks for; the headers committed meanwhile are still
to be reported. -/
def absorb (runner : Runner) (input : Input) : Except Fault (List Header × Runner) := do
  let outcome ← runner.node.handle runner.proofs input
  let runner := { runner with
    node := outcome.node, metrics := outcome.metrics.reverse ++ runner.metrics }
  return (outcome.committed, outcome.outputs.foldl execute runner)

def publish (runner : Runner) : Runner :=
  { runner with published := runner.node.synchronizer.status }

section
variable {runner later : Runner} {input : Input} {committed : List Header}

theorem unreported_of_absorb (absorbed : runner.absorb input = .ok (committed, later)) :
    later.node.ledger.unreported = [] := by
  simp only [absorb, Node.handle, bind, Except.bind, pure, Except.pure] at absorbed
  split at absorbed
  next => cases absorbed
  next outcome handled =>
    cases absorbed
    split at handled
    next => cases handled
    next =>
      cases handled
      rw [ledger_foldl_execute]
      rfl

/-- A report commits nothing itself. -/
theorem committed_of_report {header : Header}
    (absorbed : runner.absorb (.ledgerUpdate header) = .ok (committed, later)) :
    committed = runner.node.ledger.unreported := by
  simp only [absorb, Node.handle, Synchronizer.handle, bind, Except.bind, pure, Except.pure]
    at absorbed
  cases reacted : runner.node.synchronizer.react runner.node.directory.directory
      (.ledgerUpdate header) with
  | error fault => simp [reacted, Except.map] at absorbed
  | ok reaction =>
    simp only [reacted, Except.map, Except.ok.injEq, Prod.mk.injEq] at absorbed
    exact absorbed.1.symm

end

/-- How many headers an input commits. -/
def commits (runner : Runner) (input : Input) : Nat :=
  match runner.absorb input with
  | .ok (committed, _) => committed.length
  | .error _ => 0

theorem commits_of_absorb {runner later : Runner} {input : Input} {committed : List Header}
    (absorbed : runner.absorb input = .ok (committed, later)) :
    runner.commits input = committed.length := by
  rw [commits, absorbed]

/-- A running node whose ledger has handed over everything it has committed. -/
structure Drained extends Runner where
  drained : node.ledger.unreported = []

theorem Drained.commits_report (runner : Drained) (header : Header) :
    runner.commits (.ledgerUpdate header) = 0 := by
  cases absorbed : runner.absorb (.ledgerUpdate header) with
  | error fault => rw [commits, absorbed]
  | ok result =>
    rw [commits_of_absorb absorbed, committed_of_report absorbed, runner.drained]
    rfl

def Drained.publish (runner : Drained) : Drained := ⟨runner.toRunner.publish, runner.drained⟩

def Drained.serve (runner : Drained) (request : Responder.Request) : Drained :=
  ⟨runner.toRunner.serve request, by rw [ledger_serve]; exact runner.drained⟩

mutual

/-- Take an input to its end: carry out what it asks for, report what it has committed, and publish
the status. A report is an input itself; it ends because it commits nothing. -/
def step (runner : Runner) (input : Input) : Except Fault Drained :=
  match absorbed : runner.absorb input with
  | .error fault => .error fault
  | .ok (committed, reached) => do
    let runner ← adoptAll ⟨reached, unreported_of_absorb absorbed⟩ committed
    return runner.publish
termination_by 3 * runner.commits input + 1
decreasing_by
  rw [commits_of_absorb absorbed]
  exact Nat.lt_succ_self _

def adoptAll (runner : Drained) : List Header → Except Fault Drained
  | [] => return runner
  | header :: rest => do
    let runner ← adopt runner.toRunner header
    adoptAll runner rest
termination_by headers => 3 * headers.length
decreasing_by
  all_goals simp only [Drained.commits_report, List.length_cons]
  all_goals omega

/-- Report a header to both sides of the node: to the synchronizer as to any input, then to the
responder. -/
def adopt (runner : Runner) (header : Header) : Except Fault Drained := do
  let runner ← step runner (.ledgerUpdate header)
  return runner.serve (.ledgerUpdate header runner.node.phaseKind runner.limiterClock)
termination_by 3 * runner.commits (.ledgerUpdate header) + 2

end

section
variable {runner reached : Runner} {input : Input} {committed : List Header} {fault : Fault}

theorem step_of_absorb (absorbed : runner.absorb input = .ok (committed, reached)) :
    runner.step input =
      (adoptAll ⟨reached, unreported_of_absorb absorbed⟩ committed).map Drained.publish := by
  rw [step]
  split
  next failed => cases absorbed.symm.trans failed
  next again => cases absorbed.symm.trans again; rfl

theorem step_of_error (failed : runner.absorb input = .error fault) :
    runner.step input = .error fault := by
  rw [step]
  split
  next again => cases failed.symm.trans again; rfl
  next absorbed => cases failed.symm.trans absorbed

theorem adoptAll_singleton (runner : Drained) (header : Header) :
    adoptAll runner [header] = adopt runner.toRunner header := by
  simp only [adoptAll, bind_pure]

end

def handle (runner : Runner) : Mail → Except Fault Runner
  | .message peer message =>
    match message.errand peer with
    | .serve request => .ok (runner.serve request)
    | .take input => (runner.step input).map Drained.toRunner
  | .timeout timeout =>
    { runner with timers := runner.timers.fired timeout }.step timeout.input
      |>.map Drained.toRunner
  | .ledgerUpdate header => (runner.adopt header).map Drained.toRunner
  | .localRequest target peers =>
    (runner.step (.localRequest target peers)).map Drained.toRunner

end Runner

end Catchup
