import Catchup.Synchronizer.Basic

/-! The timers of a node.

Every timer is a task that sleeps. A table says which task stands for which timeout; it is told of a
timer that has fired only when the event of that timer is handled, which may be later. -/

set_option autoImplicit false

namespace Catchup

structure Sleeper where
  task : Nat
  timeout : Timeout
  due : Nat
  deriving DecidableEq, Repr

structure Timers where
  table : List (Timeout × Nat)
  /-- Tasks that have neither expired nor been cancelled, the oldest first. -/
  sleepers : List Sleeper
  nextTask : Nat
  deriving DecidableEq, Repr

namespace Timers

def empty : Timers := ⟨[], [], 0⟩

def forget (timers : Timers) (timeout : Timeout) : Timers :=
  { timers with table := timers.table.filter fun entry => entry.1 ≠ timeout }

def fired (timers : Timers) (timeout : Timeout) : Timers := timers.forget timeout

/-- Stop the task that stands for the timeout, if one does. -/
def cancel (timers : Timers) (timeout : Timeout) : Timers :=
  match timers.table.lookup timeout with
  | some task =>
    { timers.forget timeout with
      sleepers := timers.sleepers.filter fun sleeper => sleeper.task ≠ task }
  | none => timers

/-- Thirty years of 365 days. -/
def longestSleep : Nat := 30 * 365 * 24 * 60 * 60 * nanosecondsPerSecond

/-- When a sleep that begins now is over; a longer one than the longest is cut short. -/
def deadline (now delay : Nat) : Nat := now + min delay longestSleep

/-- When a sleep that begins now ends: tasks wake up at whole milliseconds. -/
def wakeTime (now delay : Nat) : Nat := roundUp (deadline now delay)

/-- A timer replaces the one that stands for the same timeout. -/
def schedule (timers : Timers) (now : Nat) (timeout : Timeout) (delay : Nat) : Timers :=
  let timers := timers.cancel timeout
  { table := timers.table ++ [(timeout, timers.nextTask)]
    sleepers := timers.sleepers ++ [⟨timers.nextTask, timeout, wakeTime now delay⟩]
    nextTask := timers.nextTask + 1 }

def cancelAll (timers : Timers) : Timers :=
  { timers with
    table := []
    sleepers := timers.sleepers.filter fun sleeper =>
      !(timers.table.any fun entry => entry.2 = sleeper.task) }

def activeCount (timers : Timers) : Nat := timers.table.length

def nextDue? (timers : Timers) : Option Nat := (timers.sleepers.map (·.due)).min?

/-- Of the tasks that have slept long enough, the named ones wake up; the others have not come to
run yet. The table is not told. -/
def expireSome (timers : Timers) (now : Nat) (tasks : List Nat) : List Sleeper × Timers :=
  let woken (sleeper : Sleeper) : Bool := sleeper.due ≤ now && tasks.contains sleeper.task
  (timers.sleepers.filter woken,
   { timers with sleepers := timers.sleepers.filter fun sleeper => !woken sleeper })

def expire (timers : Timers) (now : Nat) : List Sleeper × Timers :=
  timers.expireSome now (timers.sleepers.map (·.task))

end Timers

end Catchup
