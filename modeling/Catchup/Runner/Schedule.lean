import Catchup.Runner.Basic

/-! When a running node does what.

A request to stop comes before the mail, and the mail before a status check that is due. The clock
moves only while the node has nothing to do, from one instant to the next at which a timer or a
status check is due. A fault ends the run, not the clock. -/

set_option autoImplicit false

namespace Catchup.Runner

def offer (runner : Runner) (mail : Mail) : Except MailboxError Runner :=
  if runner.stopped then .error .closed
  else if runner.capacity ≤ runner.mailbox.length then .error .full
  else .ok { runner with mailbox := runner.mailbox ++ [mail] }

/-- Timers that have expired post their timeouts; they wait for room in the mailbox. -/
def wake (runner : Runner) : Runner :=
  let (expired, timers) := runner.timers.expire runner.now
  { runner with
    timers, mailbox := runner.mailbox ++ expired.map fun sleeper => .timeout sleeper.timeout }

def finish (ending : Ending) (runner : Runner) : Runner :=
  { runner with timers := runner.timers.cancelAll, mailbox := [], ending := some ending }

/-- A fault breaks the run off and leaves what was before it. A node that has stopped does
nothing. -/
def attempt (act : Runner → Except Fault Runner) (runner : Runner) : Runner :=
  if runner.stopped then runner
  else match act runner with
    | .ok runner => runner
    | .error fault => runner.finish (.broken fault)

def readMail (runner : Runner) : Runner :=
  runner.mailbox.foldl (fun runner mail => runner.attempt (·.handle mail))
    { runner with mailbox := [] }

/-- Start a status check if one is due, and fix when the next one is. The wait between two checks
is a sleep, cut short like any other. -/
def checkIfDue (runner : Runner) : Runner :=
  if runner.nextCheck ≤ runner.now then
    { runner.attempt (fun runner => (runner.step .checkDue).map Drained.toRunner) with
      nextCheck :=
        Timers.deadline runner.nextCheck runner.node.synchronizer.settings.checkInterval }
  else runner

/-- When something is due next; a stopped node waits for nothing. -/
def nextDue? (runner : Runner) : Option Nat :=
  if runner.stopped then none
  else
    let nextCheck := roundUp runner.nextCheck
    some (runner.timers.nextDue?.elim nextCheck (min nextCheck))

/-- Everything that can be done at this instant, in so many rounds. -/
def settleFor : Nat → Runner → Runner
  | 0, runner => runner
  | rounds + 1, runner =>
    if runner.stopped then runner
    else if !runner.wanted then runner.finish .asked
    else settleFor rounds runner.wake.readMail.checkIfDue

/-- A timer of no delay fires at once, and may set another. After a round for the mail at hand, one
for a status check, one for its window and one for requests and commits, only the same request times
out over and over. Where the interval is shorter than a millisecond, several checks are due at the
same instant. -/
def roundLimit (runner : Runner) : Nat :=
  5 * (nanosecondsPerMillisecond / runner.node.synchronizer.settings.checkInterval + 1)

/-- Do everything that can be done at this instant. Where that does not come to an end, the run is
broken off. -/
def settle (runner : Runner) : Runner :=
  let settled := runner.settleFor runner.roundLimit
  if settled.nextDue?.any (· ≤ runner.now) then settled.finish (.broken .endlessInstant)
  else settled

@[simp] theorem nextDue_finish (runner : Runner) (ending : Ending) :
    (runner.finish ending).nextDue? = none := rfl

theorem lt_of_nextDue_settle {runner : Runner} {next : Nat}
    (due : runner.settle.nextDue? = some next) : runner.now < next := by
  dsimp only [settle] at due
  split at due
  · simp at due
  next idle =>
    rw [due, Option.any_some, decide_eq_true_eq] at idle
    exact Nat.lt_of_not_le idle

def runUntil (deadline : Nat) (runner : Runner) : Runner :=
  match _found : runner.nextDue? with
  | none => { runner with now := deadline }
  | some due =>
    if due ≤ deadline then runUntil deadline { runner with now := due }.settle
    else { runner with now := deadline }
termination_by deadline + 1 - runner.nextDue?.getD (deadline + 1)
decreasing_by
  cases following : { runner with now := due }.settle.nextDue? with
  | none => simp only [_found, Option.getD_none, Option.getD_some]; omega
  | some next =>
    have later : due < next := lt_of_nextDue_settle following
    simp only [_found, Option.getD_some]
    omega

def sleep (runner : Runner) (duration : Nat) : Runner :=
  runner.runUntil (Timers.wakeTime runner.now duration)

/-- Ask the node to stop, and say whether nobody had done so before. -/
def shutDown (runner : Runner) : Bool × Runner :=
  (runner.wanted, { runner with wanted := false })

def append (runner : Runner) (batch : List Transaction) : Except Fault Header × Runner :=
  let (appended, ledger) := runner.node.ledger.append batch
  (appended, { runner with node := { runner.node with ledger } })

/-- Change the peers that the node is connected to; what the change answers is passed on. -/
def rewire (runner : Runner) (change : PeerSet → Bool × PeerSet) : Bool × Runner :=
  let (answer, node) := runner.node.rewire change
  (answer, { runner with node })

end Catchup.Runner
