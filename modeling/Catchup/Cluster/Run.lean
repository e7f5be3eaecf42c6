import Catchup.Cluster.Basic

/-! Running a cluster up to a deadline.

A step processes the first event of the agenda. The events of one instant are processed before the
clock moves on; when none is left that is due by the deadline, the clock moves there. -/

set_option autoImplicit false

namespace Catchup.Cluster

/-- Process the first event; the clock shows when it was due. -/
def step (cluster : Cluster) : Except Fault Cluster :=
  match cluster.agenda with
  | [] => .ok cluster
  | first :: rest => { cluster with agenda := rest, now := first.due }.process first.event

def steps : Nat → Cluster → Except Fault Cluster
  | 0, cluster => .ok cluster
  | count + 1, cluster => do steps count (← cluster.step)

def dueBy (cluster : Cluster) (time : Nat) : Nat :=
  (cluster.agenda.takeWhile (·.due ≤ time)).length

def nextDue? (cluster : Cluster) : Option Nat := cluster.agenda.head?.map (·.due)

/-- Process what is due at that instant, then what that has led to at the same instant, and so on
for so many rounds. -/
def settle (instant : Nat) : Nat → Cluster → Except Fault Cluster
  | 0, cluster => .ok cluster
  | rounds + 1, cluster => do settle instant rounds (← cluster.steps (cluster.dueBy instant))

/-- A timer of no delay fires at once, and may set another. A round for the events at hand, one for
the windows of status checks, and one for requests and commits are the most that can lead to an end:
after them only the same request times out over and over. -/
def roundLimit : Nat := 4

/-- Process everything due by the deadline. Where the events of one instant do not come to an end,
neither does the run, and it is broken off. -/
def runUntil (deadline : Nat) (cluster : Cluster) : Except Fault Cluster :=
  match _found : cluster.nextDue? with
  | none => .ok { cluster with now := deadline }
  | some due =>
    if due ≤ deadline then
      match cluster.settle due roundLimit with
      | .error fault => .error fault
      | .ok settled =>
        if _progress : settled.nextDue?.all (due < ·) then runUntil deadline settled
        else .error .endlessInstant
    else .ok { cluster with now := deadline }
termination_by deadline + 1 - cluster.nextDue?.getD (deadline + 1)
decreasing_by
  cases following : settled.nextDue? with
  | none => simp only [_found, Option.getD_none, Option.getD_some]; omega
  | some next =>
    simp only [following, Option.all_some, decide_eq_true_eq] at _progress
    simp only [_found, Option.getD_some]
    omega

def runFor (cluster : Cluster) (duration : Nat) : Except Fault Cluster :=
  cluster.runUntil (cluster.now + duration)

end Catchup.Cluster
