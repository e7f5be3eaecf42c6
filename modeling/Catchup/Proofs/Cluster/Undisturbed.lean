import Catchup.Proofs.Cluster.Honesty
import Catchup.Proofs.Cluster.Spread
import Catchup.Proofs.Synchronizer.Check

/-! A node that nothing happens to but what it has brought about itself.

The other nodes are as they were started, and what is to come is known in full: nothing but what the
node has planned, what it has asked others, and their answers. -/

set_option autoImplicit false

namespace Catchup

/-! ## Nodes -/

namespace Node

/-- As it was started, on some part of the shared history. -/
structure Fresh (node : Node) : Prop where
  synchronizer : node.synchronizer = .start {} node.ledger.header
  responder : node.responder.head = node.ledger.header
  coherent : node.ledger.Coherent
  history : node.ledger.transactions = Transaction.history node.ledger.transactions.length
  reported : node.ledger.unreported = []

/-- The synchronizer has sent no request, and nothing else has changed. -/
structure Unmoved (home node : Node) : Prop where
  settings : node.synchronizer.settings = {}
  unsent : node.synchronizer.nextRequest = ⟨1⟩
  directory : node.directory = home.directory
  ledger : node.ledger = home.ledger

/-- On the way from the head that the node had at home to the target. -/
structure Heads (home : Node) (target : Header) (pending : Option PendingRequest) (node : Node) :
    Prop where
  settings : node.synchronizer.settings = {}
  phase : ∃ pursuit, node.synchronizer.phase = .syncing pursuit ∧
    pursuit.head = home.ledger.header ∧ pursuit.target = target ∧ pursuit.pending = pending
  reported : node.ledger.unreported = []

variable {node home source : Node} {target : Header} {pending : Option PendingRequest}

theorem Fresh.approaches (fresh : node.Fresh) (top : Version) : node.Approaches top := by
  refine ⟨⟨?_, fun head phase below => ?_, fun pursuit phase => ?_⟩, fresh.reported⟩
  · rw [fresh.synchronizer]
    rfl
  · rw [fresh.synchronizer]
    rfl
  · rw [fresh.synchronizer] at phase
    cases phase

theorem Fresh.unmoved (fresh : node.Fresh) : node.Unmoved node := by
  refine ⟨?_, ?_, rfl, rfl⟩
  · rw [fresh.synchronizer]
    rfl
  · rw [fresh.synchronizer]
    rfl

theorem Unmoved.after (unmoved : home.Unmoved node) {synchronizer : Synchronizer}
    (settings : synchronizer.settings = node.synchronizer.settings)
    (unsent : synchronizer.nextRequest = node.synchronizer.nextRequest) :
    home.Unmoved { node with synchronizer } :=
  ⟨settings.trans unmoved.settings, unsent.trans unmoved.unsent, unmoved.directory,
    unmoved.ledger⟩

theorem Heads.approaches (heads : home.Heads target pending node) :
    node.Approaches target.version := by
  obtain ⟨settings, ⟨pursuit, phase, -, reached, -⟩, reported⟩ := heads
  exact ⟨.of_syncing settings phase (congrArg Header.version reached), reported⟩

/-- Of two fresh nodes the one that is ahead serves the other up to its own head. -/
theorem Fresh.exists_served (fresh : home.Fresh) (ahead : source.Fresh)
    (behind : home.ledger.version < source.ledger.version) :
    ∃ extension, source.ledger.extensionFrom home.ledger.header = some extension ∧
      extension.Honest ∧ extension.start = home.ledger.header ∧
      extension.finish = source.ledger.header := by
  have below := Version.lt_iff.mp behind
  have within := below
  rw [fresh.coherent.version, ahead.coherent.version] at within
  -- Both have a part of one history, so the longer ledger was once where the shorter one is.
  have shared : home.ledger.header.accumulator = Digest.zero.accumulateAll
      (source.ledger.transactions.take home.ledger.header.version.toNat) := by
    have counted : home.ledger.header.version.toNat = home.ledger.transactions.length :=
      fresh.coherent.version
    rw [fresh.coherent.accumulator, counted, ahead.history,
      Transaction.take_history (Nat.le_of_lt within), ← fresh.history]
  have served := ahead.coherent.extensionFrom_eq_some_iff.mpr ⟨below, shared, rfl⟩
  refine ⟨_, served, ahead.coherent.honest_of_extensionFrom (fun transaction member => ?_) served,
    rfl, rfl⟩
  rw [ahead.history] at member
  exact Transaction.payload_ne_nil_of_mem_history member

end Node

namespace Cluster

/-- All nodes have just been started, and all know each other. -/
structure Fresh (origin : Cluster) : Prop where
  nodes : ∀ name node, origin.node? name = some node → node.Fresh
  acquainted : ∀ name node, origin.node? name = some node →
    ∀ peer, peer ∈ node.directory.toList ↔ peer ≠ name ∧ ∃ other, origin.node? peer = some other

def headOf (cluster : Cluster) (name : PeerId) : Header :=
  ((cluster.node? name).map (·.ledger.header)).getD .genesis

theorem headOf_of_found {cluster : Cluster} {name : PeerId} {node : Node}
    (found : cluster.node? name = some node) : cluster.headOf name = node.ledger.header := by
  rw [headOf, found]
  rfl

/-- Nothing but timers that are due after the first second. -/
def Timers (table : List (Nat × Event)) : Prop :=
  ∀ entry ∈ table, ∃ due name given, entry = (due, .input name given) ∧ 1_000_000_000 < due

/-- The others are as they were at the start, and this is all that is to come. -/
structure Stands (origin : Cluster) (name : PeerId) (node : Node) (table : List (Nat × Event))
    (asked prioritized : List PeerId) (cluster : Cluster) : Prop where
  node : cluster.node? name = some node
  others : ∀ other, other ≠ name → cluster.node? other = origin.node? other
  timetable : cluster.timetable = table
  attentive : cluster.silent = .empty
  honest : cluster.malicious = .empty
  requests : cluster.requestedBy name = asked
  priorities : cluster.prioritizedBy name = prioritized

section
variable {origin cluster : Cluster} {name peer : PeerId} {home node : Node}
  {table later : List (Nat × Event)} {asked prioritized : List PeerId} {top : Version}

theorem Stands.pop {due : Nat} {event : Event} {first : Scheduled} {rest : List Scheduled}
    (stands : Stands origin name node ((due, event) :: table) asked prioritized cluster)
    (agenda : cluster.agenda = first :: rest) :
    first.due = due ∧ first.event = event ∧
      Stands origin name node table asked prioritized (cluster.pop first rest) := by
  have split := (timetable_of_agenda agenda).symm.trans stands.timetable
  obtain ⟨same, left⟩ := List.cons.inj split
  obtain ⟨when', what⟩ := Prod.mk.inj same
  exact ⟨when', what, stands.node, stands.others, left, stands.attentive, stands.honest,
    stands.requests, stands.priorities⟩

theorem Stands.conclude (stands : Stands origin name node table asked prioritized cluster)
    (outcome : Node.Outcome)
    (nobody : outcome.outputs.filterMap (Output.ban? name) = []) :
    Stands origin name outcome.node
      (enterAll table cluster.now (outcome.outputs.filterMap (Output.planned? name) ++
        outcome.committed.map fun header => (commitDelay, .ledgerUpdate name header)))
      (asked ++ (outcome.outputs.filterMap (Output.sent? name)).map (·.receiver))
      (prioritized ++ (outcome.outputs.filterMap (Output.priority? name)).map (·.peer))
      (cluster.conclude name outcome) := by
  refine ⟨?_, fun other apart => ?_, ?_, ?_, ?_, ?_, ?_⟩
  · rw [node?_conclude, stands.node, Option.map_some, if_pos rfl, nobody]
    rfl
  · simp only [node?_conclude, apart.symm, if_false, Option.map_id', stands.others other apart]
  · rw [plans_conclude.timetable, stands.timetable]
  · rw [silent_conclude, stands.attentive]
  · rw [malicious_conclude, stands.honest]
  · rw [requestedBy_conclude, stands.requests, if_pos rfl]
  · rw [prioritizedBy_conclude, stands.priorities, if_pos rfl]

/-- A peer that answers stays as it is. -/
theorem Stands.applyRequest {held : Node}
    (stands : Stands origin name node table asked prioritized cluster)
    (request : Responder.Request) (other : peer ≠ name)
    (found : origin.node? peer = some held) (same : (held.serve request).1 = held) :
    Plans cluster (cluster.applyRequest peer request) ((held.serve request).2.1.map fun letter =>
      (latency, .deliver peer letter.peer letter.message)) ∧
    Stands origin name node (enterAll table cluster.now ((held.serve request).2.1.map fun letter =>
        (latency, .deliver peer letter.peer letter.message))) asked prioritized
      (cluster.applyRequest peer request) := by
  have present : cluster.node? peer = some held := (stands.others peer other).trans found
  have kept (another : PeerId) :
      (cluster.applyRequest peer request).node? another = cluster.node? another := by
    rw [node?_applyRequest]
    by_cases here : peer = another
    · subst here
      rw [present, Option.map_some, if_pos rfl, same]
    · simp only [here, if_false, Option.map_id']
  have plans : Plans cluster (cluster.applyRequest peer request)
      ((held.serve request).2.1.map fun letter =>
        (latency, .deliver peer letter.peer letter.message)) := by
    have posted := plans_serve present request
    rw [stands.honest] at posted
    exact posted
  refine ⟨plans, (kept name).trans stands.node,
    fun another apart => (kept another).trans (stands.others another apart), ?_, ?_, ?_, ?_, ?_⟩
  · rw [plans.timetable, stands.timetable]
  · rw [silent_applyRequest, stands.attentive]
  · rw [malicious_applyRequest, stands.honest]
  · rw [requestedBy, requests_applyRequest]
    exact stands.requests
  · rw [prioritizedBy, priorities_applyRequest]
    exact stands.priorities

theorem Timers.nil : Timers [] := nofun

theorem Timers.cons {due : Nat} {given : Input} (late : 1_000_000_000 < due)
    (timers : Timers later) :
    Timers ((due, .input name given) :: later) := by
  intro entry member
  rcases List.mem_cons.mp member with rfl | old
  · exact ⟨due, name, given, rfl, late⟩
  · exact timers entry old

theorem Timers.enter (timers : Timers later) {due : Nat} {given : Input}
    (late : 1_000_000_000 < due) :
    Timers (enter later due (.input name given)) := fun entry member =>
  timers.cons late entry ((enter_perm ..).mem_iff.mp member)

theorem Timers.enter_first {due : Nat} {event : Event} (timers : Timers later)
    (soon : due ≤ 1_000_000_000) :
    Cluster.enter later due event = (due, event) :: later := by
  have after (entry : Nat × Event) (member : entry ∈ later) : due < entry.1 := by
    obtain ⟨after, name, given, rfl, late⟩ := timers entry member
    exact Nat.lt_of_le_of_lt soon late
  exact enter_append (List.forall_mem_nil _) after

theorem Stands.spreads (stands : Stands origin name node later asked prioritized cluster)
    (fresh : Fresh origin) (timers : Timers later) (approaches : node.Approaches top) :
    Spreads top cluster := by
  refine ⟨fun entry member => ?_, fun other held found => ?_⟩
  · obtain ⟨due, target, given, rfl, late⟩ := timers entry (stands.timetable ▸ member)
    exact ⟨Nat.lt_trans (by decide) late, .timer late⟩
  · by_cases here : other = name
    · subst here
      cases stands.node.symm.trans found
      exact approaches
    · exact (fresh.nodes other held ((stands.others other here).symm.trans found)).approaches top

/-- An input that the node can take, and nobody is banned for, is all there is to the event. -/
theorem Stands.completes {holds : Cluster → Prop} {event : Event} {given : Input}
    {outcome : Node.Outcome} (stands : Stands origin name node table asked prioritized cluster)
    (process : cluster.process event = cluster.applyInput name given)
    (step : node.handle .trusting given = .ok outcome)
    (nobody : outcome.outputs.filterMap (Output.ban? name) = [])
    (prompt : ∀ plan ∈ outcome.outputs.filterMap (Output.planned? name), 0 < plan.1)
    (after : Stands origin name outcome.node
      (enterAll table cluster.now (outcome.outputs.filterMap (Output.planned? name) ++
        outcome.committed.map fun header => (commitDelay, .ledgerUpdate name header)))
      (asked ++ (outcome.outputs.filterMap (Output.sent? name)).map (·.receiver))
      (prioritized ++ (outcome.outputs.filterMap (Output.priority? name)).map (·.peer))
      (cluster.conclude name outcome) → holds (cluster.conclude name outcome)) :
    cluster.Completes holds event := by
  refine ⟨_, _, process.trans (applyInput_of_handle stands.node step),
    after (stands.conclude outcome nobody), plans_conclude, fun plan member => ?_⟩
  rcases List.mem_append.mp member with sent | reported
  · exact prompt plan sent
  · obtain ⟨header, -, rfl⟩ := List.mem_map.mp reported
    exact Nat.succ_pos _

end

end Cluster

end Catchup
