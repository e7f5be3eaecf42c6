import Catchup.Proofs.Head
import Catchup.Proofs.Synchronizer.Commit
import Catchup.Proofs.Synchronizer.Invariant
import Catchup.Runner.Basic

/-! The turns in which a running node handles an event.

To take an input means to report the commits that it has led to, and to report a commit means to
take an input. `Turn` keeps what is still to be done on an agenda instead, one task a turn. Whatever
the node does not decide itself may change between two turns. -/

set_option autoImplicit false

namespace Catchup

/-- The header whose commit is reported. -/
def Input.reported? : Input → Option Header
  | .ledgerUpdate header => some header
  | _ => none

def Responder.Request.reported? : Responder.Request → Option Header
  | .ledgerUpdate header _ _ => some header
  | _ => none

namespace Runner

/-! ## Tasks -/

inductive Task where
  | take (input : Input)
  /-- Tell the responder of a header that the synchronizer has been told of. -/
  | announce (header : Header)
  | serve (request : Responder.Request)
  | publish
  deriving DecidableEq, Repr

namespace Task

def input? : Task → Option Input
  | .take input => some input
  | _ => none

def request? : Task → Option Responder.Request
  | .serve request => some request
  | _ => none

/-- The header that the synchronizer is still to be told of. -/
def heard? : Task → Option Header
  | .take input => input.reported?
  | _ => none

/-- The header that the responder is still to be told of. -/
def announced? : Task → Option Header
  | .announce header => some header
  | .serve request => request.reported?
  | _ => none

end Task

/-- The report of a commit: to the synchronizer first, then to the responder. -/
def report (header : Header) : List Task := [.take (.ledgerUpdate header), .announce header]

def Task.ofErrand : Errand → Task
  | .serve request => .serve request
  | .take input => .take input

def tasks : Mail → List Task
  | .message peer message => [.ofErrand (message.errand peer)]
  | .timeout timeout => [.take timeout.input]
  | .ledgerUpdate header => report header
  | .localRequest target peers => [.take (.localRequest target peers)]

theorem tasks_of_mail {mail : Mail} (other : ∀ header, mail ≠ .ledgerUpdate header) :
    (∃ input, tasks mail = [.take input] ∧ input.reported? = none) ∨
    ∃ request, tasks mail = [.serve request] ∧ request.reported? = none := by
  cases mail with
  | message peer message =>
    cases message with
    | statusRequest | syncRequest => exact .inr ⟨_, rfl, rfl⟩
    | statusResponse | syncResponse | statusUpdate => exact .inl ⟨_, rfl, rfl⟩
  | timeout timeout => exact .inl ⟨_, rfl, by cases timeout <;> rfl⟩
  | ledgerUpdate header => exact absurd rfl (other header)
  | localRequest target peers => exact .inl ⟨_, rfl, rfl⟩

/-- A timer that has fired is taken off the table. -/
def receive (runner : Runner) : Mail → Runner
  | .timeout timeout => { runner with timers := runner.timers.fired timeout }
  | _ => runner

/-- An input that the synchronizer has taken, and what it has led to. -/
def taken (runner : Runner) (input : Input) (reaction : Reaction) (stored : Ledger) :
    Synchronizer.Record Ledger :=
  ⟨runner.node.directory, runner.node.ledger, input, reaction, stored⟩

/-- One task is done. A turn says which input the synchronizer has taken in it and which request the
responder has, and what is to be done before the rest of the agenda now. -/
inductive Turn (runner : Runner) :
    Task → Synchronizer.History Ledger → List Responder.Request → List Task → Runner → Prop where
  | took {input : Input} {reaction : Reaction} {stored : Ledger} {committed : List Header}
      {later : Runner} :
      runner.node.synchronizer.handle (Verification.judge runner.proofs Ledger.committer)
        runner.node.directory runner.node.ledger input = .ok (reaction, stored) →
      runner.absorb input = .ok (committed, later) →
      Turn runner (.take input) [runner.taken input reaction stored] []
        (committed.flatMap report ++ [.publish]) later
  | announced {header : Header} {request : Responder.Request} :
      request = .ledgerUpdate header runner.node.phaseKind runner.limiterClock →
      Turn runner (.announce header) [] [request] [] (runner.serve request)
  | served {request : Responder.Request} :
      Turn runner (.serve request) [] [request] [] (runner.serve request)
  | published : Turn runner .publish [] [] [] runner.publish

/-! ## What stays -/

/-- Only what a node does not decide itself has changed. -/
structure Keeps (runner later : Runner) : Prop where
  ledger : later.node.ledger = runner.node.ledger
  synchronizer : later.node.synchronizer = runner.node.synchronizer
  responder : later.node.responder = runner.node.responder
  proofs : later.proofs = runner.proofs
  published : later.published = runner.published

variable {runner middle later : Runner}

theorem Keeps.refl (runner : Runner) : runner.Keeps runner := ⟨rfl, rfl, rfl, rfl, rfl⟩

theorem Keeps.trans (first : runner.Keeps middle) (second : middle.Keeps later) :
    runner.Keeps later where
  ledger := second.ledger.trans first.ledger
  synchronizer := second.synchronizer.trans first.synchronizer
  responder := second.responder.trans first.responder
  proofs := second.proofs.trans first.proofs
  published := second.published.trans first.published

theorem keeps_foldl {α : Type} {act : Runner → α → Runner}
    (keeps : ∀ (runner : Runner) (item : α), runner.Keeps (act runner item)) (items : List α)
    (runner : Runner) : runner.Keeps (items.foldl act runner) := by
  induction items generalizing runner with
  | nil => exact .refl runner
  | cons item rest ih => exact (keeps runner item).trans (ih (act runner item))

theorem keeps_receive (runner : Runner) (mail : Mail) : runner.Keeps (runner.receive mail) := by
  cases mail <;> exact ⟨rfl, rfl, rfl, rfl, rfl⟩

theorem keeps_send (runner : Runner) (letter : Letter) :
    runner.Keeps (runner.send letter.peer letter.message) := ⟨rfl, rfl, rfl, rfl, rfl⟩

theorem keeps_execute (runner : Runner) (output : Output) :
    runner.Keeps (runner.execute output) := by
  cases output <;> exact ⟨rfl, rfl, rfl, rfl, rfl⟩

/-- To serve a request changes the responder, and nothing else that counts here. -/
theorem keeps_serve (runner : Runner) (request : Responder.Request) :
    Keeps { runner with node := { runner.node with
      responder := (runner.node.responder.handle runner.node.ledger runner.node.directory
        request).responder } } (runner.serve request) := by
  refine .trans ?_ (keeps_foldl keeps_send _ _)
  exact ⟨rfl, rfl, rfl, rfl, rfl⟩

/-- To take an input changes the synchronizer and the ledger. -/
theorem absorb_of_handle {input : Input} {reaction : Reaction} {stored : Ledger}
    (done : runner.node.synchronizer.handle (Verification.judge runner.proofs Ledger.committer)
      runner.node.directory runner.node.ledger input = .ok (reaction, stored)) :
    ∃ later, runner.absorb input = .ok (stored.unreported, later) ∧
      Keeps { runner with node := { runner.node with
        ledger := stored.takeUnreported.2, synchronizer := reaction.synchronizer } } later := by
  simp only [absorb, Node.handle, done, bind, Except.bind, pure, Except.pure]
  refine ⟨_, rfl, .trans ?_ (keeps_foldl keeps_execute _ _)⟩
  exact ⟨rfl, rfl, rfl, rfl, rfl⟩

theorem keeps_of_absorb {input : Input} {reaction : Reaction} {stored : Ledger}
    {committed : List Header}
    (done : runner.node.synchronizer.handle (Verification.judge runner.proofs Ledger.committer)
      runner.node.directory runner.node.ledger input = .ok (reaction, stored))
    (absorbed : runner.absorb input = .ok (committed, later)) :
    committed = stored.unreported ∧ Keeps { runner with node := { runner.node with
      ledger := stored.takeUnreported.2, synchronizer := reaction.synchronizer } } later := by
  obtain ⟨reached, again, keeps⟩ := absorb_of_handle done
  cases absorbed.symm.trans again
  exact ⟨rfl, keeps⟩

theorem absorb_of_error {input : Input} {fault : Fault}
    (failed : runner.node.synchronizer.handle (Verification.judge runner.proofs Ledger.committer)
      runner.node.directory runner.node.ledger input = .error fault) :
    runner.absorb input = .error fault := by
  simp only [absorb, Node.handle, failed, bind, Except.bind]

/-- Whatever a node takes without a fault is a turn. -/
theorem exists_took {input : Input} {committed : List Header}
    (absorbed : runner.absorb input = .ok (committed, later)) :
    ∃ reaction stored,
      runner.node.synchronizer.handle (Verification.judge runner.proofs Ledger.committer)
        runner.node.directory runner.node.ledger input = .ok (reaction, stored) ∧
      Turn runner (.take input) [runner.taken input reaction stored] []
        (committed.flatMap report ++ [.publish]) later := by
  cases done : runner.node.synchronizer.handle
      (Verification.judge runner.proofs Ledger.committer) runner.node.directory runner.node.ledger
      input with
  | error fault => cases absorbed.symm.trans (absorb_of_error done)
  | ok result =>
    obtain ⟨reaction, stored⟩ := result
    exact ⟨reaction, stored, rfl, .took done absorbed⟩

/-! ## Turns -/

section
variable {task : Task} {records : Synchronizer.History Ledger}
  {served : List Responder.Request} {new : List Task}

theorem Turn.silent (turn : Turn runner task records served new later)
    (silent : runner.node.ledger.unreported = []) : later.node.ledger.unreported = [] := by
  cases turn with
  | took done absorbed =>
    obtain ⟨rfl, keeps⟩ := keeps_of_absorb done absorbed
    rw [keeps.ledger]
    rfl
  | announced told | served =>
    rw [(keeps_serve runner _).ledger]
    exact silent
  | published => exact silent

theorem Turn.precedes (turn : Turn runner task records served new later) :
    runner.node.ledger.Precedes later.node.ledger := by
  cases turn with
  | took done absorbed =>
    obtain ⟨rfl, keeps⟩ := keeps_of_absorb done absorbed
    obtain ⟨bare, transition, -⟩ := Synchronizer.transition_of_handle done
    rw [keeps.ledger]
    exact transition.precedes.trans (Ledger.precedes_takeUnreported _)
  | announced told | served =>
    rw [(keeps_serve runner _).ledger]
    exact .refl _
  | published => exact .refl _

theorem Turn.same_proofs (turn : Turn runner task records served new later) :
    later.proofs = runner.proofs := by
  cases turn with
  | took done absorbed =>
    obtain ⟨rfl, keeps⟩ := keeps_of_absorb done absorbed
    exact keeps.proofs
  | announced told | served => exact (keeps_serve runner _).proofs
  | published => rfl

/-- An input leaves the ledger as it is, or it is a response whose extension is committed. -/
theorem stored_cases {input : Input} {reaction : Reaction} {stored : Ledger}
    (silent : runner.node.ledger.unreported = [])
    (done : runner.node.synchronizer.handle (Verification.judge runner.proofs Ledger.committer)
      runner.node.directory runner.node.ledger input = .ok (reaction, stored)) :
    stored = runner.node.ledger ∨ ∃ peer extension, input = .syncResponse peer extension ∧
      stored.unreported = [extension.finish] := by
  obtain ⟨bare, transition, -⟩ := Synchronizer.transition_of_handle done
  rcases transition.commit_cases with
    ⟨same, -⟩ | ⟨pursuit, peer, extension, rfl, -, judged, -⟩
  · exact .inl same
  · obtain ⟨-, -, taken⟩ := (Verification.decides_of_judge judged).accepted
    obtain ⟨-, -, -, rfl⟩ := Ledger.commit_eq_ok_iff.mp (Verification.committer_eq_ok_iff.mp taken)
    exact .inr ⟨peer, extension, rfl, by rw [silent]; rfl⟩

/-- How many turns a task comes to, with the report that it may lead to. -/
def Task.turns : Task → Nat
  | .take input => if input.reported? = none then 5 else 2
  | .announce _ | .serve _ | .publish => 1

/-- How many turns the agenda comes to. -/
def turnsLeft : List Task → Nat
  | [] => 0
  | task :: rest => task.turns + turnsLeft rest

theorem turnsLeft_append (first second : List Task) :
    turnsLeft (first ++ second) = turnsLeft first + turnsLeft second := by
  induction first with
  | nil => exact (Nat.zero_add _).symm
  | cons task rest ih => rw [List.cons_append, turnsLeft, turnsLeft, ih, Nat.add_assoc]

theorem turns_le_five (task : Task) : task.turns ≤ 5 := by
  unfold Task.turns
  split
  · split <;> decide
  all_goals decide

/-- Every turn brings the end of the event closer. -/
theorem Turn.turns_lt (turn : Turn runner task records served new later)
    (silent : runner.node.ledger.unreported = []) :
    turnsLeft new < task.turns := by
  cases turn with
  | announced told | served | published => exact Nat.one_pos
  | @took input reaction stored committed later done absorbed =>
    obtain ⟨rfl, -⟩ := keeps_of_absorb done absorbed
    rcases stored_cases silent done with rfl | ⟨peer, extension, rfl, unreported⟩
    · rw [silent]
      show 1 < if input.reported? = none then 5 else 2
      split <;> decide
    · rw [unreported]
      exact Nat.lt_succ_self 4

/-- A task can be done unless a number that it needs has been used up. -/
theorem exists_turn (runner : Runner) (task : Task) :
    (∃ records served new later, Turn runner task records served new later) ∨
    ∃ input, task = .take input ∧ runner.absorb input = .error .additionOverflow ∧
      Synchronizer.Overflows runner.node.directory runner.node.synchronizer input
        .additionOverflow := by
  cases task with
  | announce header => exact .inl ⟨_, _, _, _, .announced rfl⟩
  | serve request => exact .inl ⟨_, _, _, _, .served⟩
  | publish => exact .inl ⟨_, _, _, _, .published⟩
  | take input =>
    rcases Synchronizer.handle_cases (Verification.judge runner.proofs Ledger.committer)
        runner.node.directory runner.node.ledger runner.node.synchronizer input with
      ⟨bare, after, -, done⟩ | ⟨fault, overflows, failed⟩
    · obtain ⟨later, absorbed, -⟩ := absorb_of_handle done
      exact .inl ⟨_, _, _, _, .took done absorbed⟩
    · obtain rfl := overflows.cause.1
      exact .inr ⟨input, rfl, absorb_of_error failed, overflows⟩

end

end Runner

end Catchup
