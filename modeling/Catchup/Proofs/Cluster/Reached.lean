import Catchup.Proofs.Cluster.Step

/-! The clusters that can come about.

Between two events anything may be done to a cluster from outside: nodes turn malicious or silent,
commit transactions of their own, and are given any input that is allowed. The clock moves on to a
deadline when nothing is due by then. A list of moves, played from the start, is one way to get
there. -/

set_option autoImplicit false

namespace Catchup.Cluster

inductive Reached (settings : Settings) (versions : List UInt64) (allowed : Input → Prop) :
    Cluster → Prop where
  | start : Reached settings versions allowed (.start settings (versions.map UInt64.toNat))
  | corrupt {cluster : Cluster} (name : PeerId) :
      Reached settings versions allowed cluster →
      Reached settings versions allowed (cluster.corrupt name)
  | silence {cluster : Cluster} (name : PeerId) :
      Reached settings versions allowed cluster →
      Reached settings versions allowed (cluster.silence name)
  | commitLocal {cluster next : Cluster} {name : PeerId} {count : Nat} {header : Header} :
      Reached settings versions allowed cluster →
      cluster.commitLocal name count = .ok (header, next) → Reached settings versions allowed next
  | input {cluster : Cluster} (name : PeerId) (given : Input) :
      Reached settings versions allowed cluster → allowed given →
      Reached settings versions allowed (cluster.input name given)
  | step {cluster next : Cluster} :
      Reached settings versions allowed cluster → cluster.step = .ok next →
      Reached settings versions allowed next
  | elapse {cluster : Cluster} {deadline : Nat} :
      Reached settings versions allowed cluster →
      (∀ due, cluster.nextDue? = some due → deadline < due) →
      Reached settings versions allowed { cluster with now := deadline }

variable {cluster next : Cluster}

/-! ## Runs -/

/-- Kept by every event, and by the clock as long as nothing is due. -/
structure Steady (holds : Cluster → Prop) : Prop where
  step {cluster next : Cluster} : holds cluster → cluster.step = .ok next → holds next
  elapse {cluster : Cluster} {deadline : Nat} : holds cluster →
    (∀ due, cluster.nextDue? = some due → deadline < due) →
    holds { cluster with now := deadline }

section
variable {holds : Cluster → Prop}

theorem Steady.steps {count : Nat} (steady : Steady holds) (before : holds cluster)
    (done : cluster.steps count = .ok next) : holds next := by
  induction count generalizing cluster with
  | zero => cases done; exact before
  | succ count ih =>
    obtain ⟨middle, first, rest⟩ := exists_of_bind_eq_ok done
    exact ih (steady.step before first) rest

theorem Steady.settle {instant rounds : Nat} (steady : Steady holds) (before : holds cluster)
    (done : cluster.settle instant rounds = .ok next) : holds next := by
  induction rounds generalizing cluster with
  | zero => cases done; exact before
  | succ rounds ih =>
    obtain ⟨middle, first, rest⟩ := exists_of_bind_eq_ok done
    exact ih (steady.steps before first) rest

theorem Steady.runUntil {deadline : Nat} (steady : Steady holds) (before : holds cluster)
    (done : cluster.runUntil deadline = .ok next) : holds next := by
  fun_induction Cluster.runUntil deadline cluster with
  | case1 cluster found =>
    cases done
    exact steady.elapse before fun due first => by simp [found] at first
  | case2 cluster due found reaches fault failed => cases done
  | case3 cluster due found reaches settled instant progress ih =>
    exact ih (steady.settle before instant) done
  | case4 cluster due found reaches settled instant stuck => cases done
  | case5 cluster due found later =>
    cases done
    -- The first event is due after the deadline, so the clock may move there.
    refine steady.elapse before fun first same => ?_
    cases found.symm.trans same
    exact Nat.not_le.mp later

end

section
variable {settings : Settings} {versions : List UInt64} {allowed : Input → Prop}

theorem Reached.steady : Steady (Reached settings versions allowed) := ⟨.step, .elapse⟩

theorem Reached.mono {more : Input → Prop} (reached : Reached settings versions allowed cluster)
    (wider : ∀ given, allowed given → more given) : Reached settings versions more cluster := by
  induction reached with
  | start => exact .start
  | corrupt name _ ih => exact ih.corrupt name
  | silence name _ ih => exact ih.silence name
  | commitLocal _ done ih => exact ih.commitLocal done
  | input name given _ fair ih => exact ih.input name given (wider given fair)
  | step _ done ih => exact ih.step done
  | elapse _ later ih => exact ih.elapse later

/-- What is seen after so many steps is seen of a cluster that can come about. -/
theorem Reached.exists_of_steps {α : Type} (count : Nat) (observe : Cluster → α) (seen : α)
    (reached : Reached settings versions allowed cluster)
    (evaluated : (cluster.steps count).toOption.map observe = some seen) :
    ∃ next, Reached settings versions allowed next ∧ observe next = seen := by
  cases done : cluster.steps count with
  | error fault => simp [done, Except.toOption] at evaluated
  | ok next =>
    refine ⟨next, Reached.steady.steps reached done, ?_⟩
    simpa [done, Except.toOption] using evaluated

end

/-! ## Inputs -/

/-- The inputs on the agenda are all of that kind. -/
def Given (allowed : Input → Prop) (cluster : Cluster) : Prop :=
  ∀ entry ∈ cluster.agenda, ∀ name given, entry.event = .input name given → allowed given

section
variable {allowed : Input → Prop} {name : PeerId}

theorem Given.adds {events : List Event} (given : Given allowed cluster)
    (adds : Adds cluster next events)
    (added : ∀ event ∈ events, ∀ name other, event = .input name other → allowed other) :
    Given allowed next := by
  intro entry member
  rcases adds entry member with earlier | new
  · exact given entry earlier
  · exact added entry.event new

theorem Given.applyInput {input : Input} (given : Given allowed cluster)
    (timeouts : ∀ timeout, allowed (Timeout.input timeout))
    (done : cluster.applyInput name input = .ok next) : Given allowed next := by
  rcases applyInput_eq_ok done with ⟨-, rfl⟩ | ⟨node, outcome, found, step, rfl⟩
  · exact given
  refine given.adds adds_conclude fun event member target other same => ?_
  subst same
  rcases List.mem_append.mp member with caused | reported
  · obtain ⟨output, -, caused⟩ := List.mem_flatMap.mp caused
    -- A node asks for no input but its own timeouts.
    cases output with
    | schedule timeout delay =>
      cases List.mem_singleton.mp caused
      exact timeouts timeout
    | _ => simp [Output.event?] at caused
  · simp at reported

theorem Given.applyRequest (given : Given allowed cluster) (request : Responder.Request) :
    Given allowed (cluster.applyRequest name request) := by
  rcases adds_applyRequest cluster name request with adds | ⟨node, found, adds⟩
  · exact given.adds adds nofun
  · refine given.adds adds fun event member target other same => ?_
    obtain ⟨letter, -, rfl⟩ := List.mem_map.mp member
    cases same

theorem Given.processes {event : Event} (given : Given allowed cluster)
    (timeouts : ∀ timeout, allowed (Timeout.input timeout))
    (processes : Processes cluster event next) : Given allowed next := by
  cases processes with
  | lost errand => exact given
  | served errand => exact given.applyRequest _
  | taken errand done => exact given.applyInput timeouts done
  | given done => exact given.applyInput timeouts done
  | reported phase now heard => exact (given.applyInput timeouts heard).applyRequest _

/-- Nothing comes up that was not allowed from outside, apart from timeouts. -/
theorem Reached.given {settings : Settings} {versions : List UInt64}
    (reached : Reached settings versions allowed cluster)
    (timeouts : ∀ timeout, allowed (Timeout.input timeout)) : Given allowed cluster := by
  induction reached with
  | start => nofun
  | corrupt name _ ih => exact ih
  | silence name _ ih => exact ih
  | commitLocal _ done ih =>
    obtain ⟨node, ledger, -, -, -, rfl⟩ := commitLocal_eq_ok done
    exact ih.adds (Adds.schedule (Cluster.setNode _ _ { node with ledger }) 0 _) (by simp)
  | input name given _ fair ih =>
    refine ih.adds (Adds.schedule _ 0 (.input name given)) fun event member target other same => ?_
    cases (List.mem_singleton.mp member).symm.trans same
    exact fair
  | step _ done ih =>
    rcases step_eq_ok done with ⟨-, rfl⟩ | ⟨first, rest, agenda, done⟩
    · exact ih
    · refine Given.processes (fun entry member => ih entry ?_) timeouts (processes_of_process done)
      exact agenda ▸ List.mem_cons_of_mem first member
  | elapse _ later ih => exact ih

end

/-! ## Moves -/

/-- What is done to a cluster from outside, between two events or in place of them. -/
inductive Move where
  | corrupt (name : PeerId)
  | silence (name : PeerId)
  | commitLocal (name : PeerId) (count : Nat)
  | input (name : PeerId) (given : Input)
  | step
  | runFor (duration : Nat)
  deriving DecidableEq, Repr

def perform (cluster : Cluster) : Move → Except Fault Cluster
  | .corrupt name => .ok (cluster.corrupt name)
  | .silence name => .ok (cluster.silence name)
  | .commitLocal name count => (cluster.commitLocal name count).map (·.2)
  | .input name given => .ok (cluster.input name given)
  | .step => cluster.step
  | .runFor duration => cluster.runFor duration

def play : List Move → Cluster → Except Fault Cluster
  | [], cluster => .ok cluster
  | move :: rest, cluster => do play rest (← cluster.perform move)

/-- What none of the moves ends holds after all of them. -/
theorem play_keeps {holds : Cluster → Prop} {moves : List Move}
    (kept : ∀ move ∈ moves, ∀ {cluster next : Cluster}, holds cluster →
      cluster.perform move = .ok next → holds next)
    (before : holds cluster) (played : play moves cluster = .ok next) : holds next := by
  induction moves generalizing cluster with
  | nil => cases played; exact before
  | cons move rest ih =>
    obtain ⟨middle, first, later⟩ := exists_of_bind_eq_ok played
    have after : holds middle := kept move List.mem_cons_self before first
    exact ih (fun other member => kept other (List.mem_cons_of_mem move member)) after later

section
variable {settings : Settings} {versions : List UInt64} {allowed : Input → Prop}

theorem Reached.perform {move : Move} (reached : Reached settings versions allowed cluster)
    (fair : ∀ target given, move = .input target given → allowed given)
    (done : cluster.perform move = .ok next) : Reached settings versions allowed next := by
  cases move with
  | corrupt name => cases done; exact reached.corrupt name
  | silence name => cases done; exact reached.silence name
  | commitLocal name count =>
    obtain ⟨⟨header, after⟩, appended, rfl⟩ := exists_of_map_eq_ok done
    exact reached.commitLocal appended
  | input name given => cases done; exact reached.input name given (fair name given rfl)
  | step => exact reached.step done
  | runFor duration => exact Reached.steady.runUntil reached done

theorem Reached.play {moves : List Move} (reached : Reached settings versions allowed cluster)
    (fair : ∀ target given, .input target given ∈ moves → allowed given)
    (played : play moves cluster = .ok next) : Reached settings versions allowed next := by
  refine play_keeps (fun move member {cluster next} before done => ?_) reached played
  exact before.perform (fun target given same => fair target given (same ▸ member)) done

end

/-- What is seen of a node after the moves is seen of a node. -/
theorem exists_of_play {α : Type} (moves : List Move) (name : PeerId)
    (observe : Cluster → Node → α) (seen : α)
    (evaluated : (play moves cluster).toOption.bind
      (fun next => (next.node? name).map (observe next)) = some seen) :
    ∃ next node, play moves cluster = .ok next ∧ next.node? name = some node ∧
      observe next node = seen := by
  cases played : play moves cluster with
  | error fault => simp [played, Except.toOption] at evaluated
  | ok next =>
    rw [played] at evaluated
    obtain ⟨node, found, same⟩ := Option.map_eq_some_iff.mp evaluated
    exact ⟨next, node, rfl, found, same⟩

end Catchup.Cluster
