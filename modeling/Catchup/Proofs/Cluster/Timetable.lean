import Catchup.Proofs.Cluster.Step
import Mathlib.Data.List.Basic

/-! What is to come in a cluster, and when.

The numbers of the entries on the agenda are never read, so what counts is the timetable: the events
with the times at which they are due. Whatever happens at a node enters events of its own into it,
and leaves the other nodes alone. -/

set_option autoImplicit false

namespace Catchup

namespace Output

def delay : Output → Nat
  | .schedule _ delay => delay
  | _ => Cluster.latency

/-- What carrying out the output enters, and after how long it is due. -/
def planned? (name : PeerId) (output : Output) : Option (Nat × Event) :=
  (output.event? name).map fun event => (output.delay, event)

def sent? (name : PeerId) : Output → Option SentRequest
  | .sendSyncRequest peer request => some ⟨name, peer, request.id⟩
  | _ => none

def priority? (name : PeerId) : Output → Option Priority
  | .prioritize peer => some ⟨name, peer⟩
  | _ => none

end Output

/-- The peers that the node has banned are out of its directory. -/
def Node.without (node : Node) (bans : List Ban) : Node :=
  { node with
    directory := bans.foldl (fun directory ban => directory.erase ban.peer) node.directory }

namespace Cluster

variable {cluster middle next : Cluster} {name other : PeerId}

/-! ## Timetables -/

def timetable (cluster : Cluster) : List (Nat × Event) :=
  cluster.agenda.map fun entry => (entry.due, entry.event)

/-- Put an event behind everything that is due no later. -/
def enter (table : List (Nat × Event)) (due : Nat) (event : Event) : List (Nat × Event) :=
  table.takeWhile (·.1 ≤ due) ++ (due, event) :: table.dropWhile (·.1 ≤ due)

theorem timetable_schedule (cluster : Cluster) (delay : Nat) (event : Event) :
    (cluster.schedule delay event).timetable =
      enter cluster.timetable (cluster.now + delay) event := by
  simp only [timetable, schedule, place, enter, List.map_append, List.map_cons,
    List.takeWhile_map, List.dropWhile_map]
  rfl

theorem enter_perm (table : List (Nat × Event)) (due : Nat) (event : Event) :
    (enter table due event).Perm ((due, event) :: table) := by
  refine List.perm_middle.trans (List.Perm.of_eq ?_)
  rw [List.takeWhile_append_dropWhile]

theorem enter_append {before after : List (Nat × Event)} {due : Nat} {event : Event}
    (early : ∀ entry ∈ before, entry.1 ≤ due) (late : ∀ entry ∈ after, due < entry.1) :
    enter (before ++ after) due event = before ++ (due, event) :: after := by
  have passed : ∀ entry ∈ before, decide (entry.1 ≤ due) = true := by simpa using early
  have stop : after.takeWhile (·.1 ≤ due) = [] ∧ after.dropWhile (·.1 ≤ due) = after := by
    cases after with
    | nil => exact ⟨rfl, rfl⟩
    | cons first rest => simp [late first List.mem_cons_self]
  rw [enter, List.takeWhile_append_of_pos passed, List.dropWhile_append_of_pos passed, stop.1,
    stop.2, List.append_nil]

/-- Enter events one after another, each with its delay from now on. -/
def enterAll (table : List (Nat × Event)) (now : Nat) (planned : List (Nat × Event)) :
    List (Nat × Event) :=
  planned.foldl (fun table plan => enter table (now + plan.1) plan.2) table

@[simp] theorem enterAll_nil (table : List (Nat × Event)) (now : Nat) :
    enterAll table now [] = table := rfl

@[simp] theorem enterAll_cons (table : List (Nat × Event)) (now : Nat) (plan : Nat × Event)
    (rest : List (Nat × Event)) :
    enterAll table now (plan :: rest) = enterAll (enter table (now + plan.1) plan.2) now rest := rfl

/-- Events that come one after another, and after all the others, are entered at the end. -/
theorem enterAll_of_sorted {planned table : List (Nat × Event)} {now : Nat}
    (sorted : planned.Pairwise fun first second => first.1 ≤ second.1)
    (early : ∀ entry ∈ table, ∀ plan ∈ planned, entry.1 ≤ now + plan.1) :
    enterAll table now planned = table ++ planned.map fun plan => (now + plan.1, plan.2) := by
  induction planned generalizing table with
  | nil => exact (List.append_nil table).symm
  | cons plan rest ih =>
    obtain ⟨least, ordered⟩ := List.pairwise_cons.mp sorted
    have entered : enter table (now + plan.1) plan.2 = table ++ [(now + plan.1, plan.2)] := by
      have appended : enter (table ++ []) (now + plan.1) plan.2 =
          table ++ (now + plan.1, plan.2) :: [] :=
        enter_append (fun entry member => early entry member plan List.mem_cons_self) nofun
      rwa [List.append_nil] at appended
    rw [enterAll_cons, entered, ih ordered, List.append_assoc]
    · rfl
    · intro entry member later within
      rcases List.mem_append.mp member with old | new
      · exact early entry old later (List.mem_cons_of_mem plan within)
      · cases List.mem_singleton.mp new
        exact Nat.add_le_add_left (least later within) now

/-- Nothing has happened to the timetable except that these events were entered. -/
structure Plans (cluster next : Cluster) (planned : List (Nat × Event)) : Prop where
  now : next.now = cluster.now
  timetable : next.timetable = enterAll cluster.timetable cluster.now planned

theorem Plans.refl (cluster : Cluster) : Plans cluster cluster [] := ⟨rfl, rfl⟩

theorem Plans.schedule (cluster : Cluster) (delay : Nat) (event : Event) :
    Plans cluster (cluster.schedule delay event) [(delay, event)] :=
  ⟨rfl, timetable_schedule cluster delay event⟩

theorem Plans.trans {first second : List (Nat × Event)} (plans : Plans cluster middle first)
    (more : Plans middle next second) : Plans cluster next (first ++ second) := by
  refine ⟨more.now.trans plans.now, ?_⟩
  rw [more.timetable, plans.timetable, plans.now, enterAll, enterAll, enterAll, List.foldl_append]

theorem Plans.foldl {α : Type} {carry : Cluster → α → Cluster} {planned : α → List (Nat × Event)}
    (plans : ∀ cluster item, Plans cluster (carry cluster item) (planned item)) (items : List α)
    (cluster : Cluster) : Plans cluster (items.foldl carry cluster) (items.flatMap planned) := by
  induction items generalizing cluster with
  | nil => exact Plans.refl cluster
  | cons item rest ih => exact (plans cluster item).trans (ih _)

/-- As far as the order does not matter, the planned events are added. -/
theorem Plans.perm {planned : List (Nat × Event)} (plans : Plans cluster next planned) :
    next.timetable.Perm
      (planned.map (fun plan => (cluster.now + plan.1, plan.2)) ++ cluster.timetable) := by
  rw [plans.timetable]
  generalize cluster.timetable = table
  clear plans
  induction planned generalizing table with
  | nil => exact List.Perm.refl _
  | cons plan rest ih =>
    refine (ih _).trans (((enter_perm ..).append_left _).trans ?_)
    exact List.perm_middle

theorem Plans.mem_timetable {planned : List (Nat × Event)} (plans : Plans cluster next planned)
    {entry : Nat × Event} : entry ∈ next.timetable ↔
      entry ∈ cluster.timetable ∨ ∃ plan ∈ planned, entry = (cluster.now + plan.1, plan.2) := by
  rw [plans.perm.mem_iff, List.mem_append, List.mem_map, or_comm]
  simp only [eq_comm]

theorem plans_execute (name : PeerId) (cluster : Cluster) (output : Output) :
    Plans cluster (execute name cluster output) (output.planned? name).toList := by
  cases output with
  | ban peer reason duration =>
    simp only [execute, ban]
    split <;> exact ⟨rfl, rfl⟩
  | prioritize peer => exact ⟨rfl, rfl⟩
  | sendStatusRequest peer => exact Plans.schedule cluster _ _
  | schedule timeout delay => exact Plans.schedule cluster _ _
  | sendSyncRequest peer request =>
    let sent : Cluster :=
      { cluster with requests := cluster.requests ++ [⟨name, peer, request.id⟩] }
    exact ⟨rfl, timetable_schedule sent latency _⟩

theorem plans_report (name : PeerId) (cluster : Cluster) (header : Header) :
    Plans cluster (report name cluster header) [(commitDelay, .ledgerUpdate name header)] :=
  Plans.schedule cluster commitDelay (.ledgerUpdate name header)

section
variable {outcome : Node.Outcome}

theorem plans_conclude : Plans cluster (cluster.conclude name outcome)
    (outcome.outputs.filterMap (Output.planned? name) ++
      outcome.committed.map fun header => (commitDelay, .ledgerUpdate name header)) := by
  have placed : Plans cluster (cluster.setNode name outcome.node) [] := ⟨rfl, rfl⟩
  have outputs := Plans.foldl (plans_execute name) outcome.outputs
    (cluster.setNode name outcome.node)
  have reports := Plans.foldl (plans_report name) outcome.committed
    (outcome.outputs.foldl (execute name) (cluster.setNode name outcome.node))
  rw [List.filterMap_eq_flatMap_toList, List.map_eq_flatMap]
  exact (placed.trans outputs).trans reports

end

theorem plans_foldl_post (letters : List Letter) (cluster : Cluster) :
    Plans cluster (letters.foldl (post name) cluster)
      (letters.map fun letter => (latency, mail cluster.malicious name letter)) := by
  induction letters generalizing cluster with
  | nil => exact Plans.refl cluster
  | cons letter rest ih =>
    have posted : Plans cluster (cluster.post name letter)
        [(latency, mail cluster.malicious name letter)] := Plans.schedule cluster latency _
    exact posted.trans (ih (cluster.post name letter))

theorem plans_of_applyInput {input : Input} (done : cluster.applyInput name input = .ok next) :
    ∃ planned, Plans cluster next planned := by
  rcases applyInput_eq_ok done with ⟨-, rfl⟩ | ⟨node, outcome, found, step, rfl⟩
  · exact ⟨[], Plans.refl next⟩
  · exact ⟨_, plans_conclude⟩

/-- The letters with which a node answers arrive at the same time. -/
theorem plans_serve {node : Node} (found : cluster.node? name = some node)
    (request : Responder.Request) :
    Plans cluster (cluster.applyRequest name request) ((node.serve request).2.1.map fun letter =>
      (latency, mail cluster.malicious name letter)) := by
  have placed : Plans cluster (cluster.setNode name (node.serve request).1) [] := ⟨rfl, rfl⟩
  rw [applyRequest, found]
  exact placed.trans (plans_foldl_post (node.serve request).2.1 _)

theorem plans_applyRequest (cluster : Cluster) (name : PeerId) (request : Responder.Request) :
    ∃ planned, Plans cluster (cluster.applyRequest name request) planned := by
  cases found : cluster.node? name with
  | none => exact ⟨[], (applyRequest_of_missing found).symm ▸ Plans.refl cluster⟩
  | some node => exact ⟨_, plans_serve found request⟩

theorem Processes.plans {event : Event} (processes : Processes cluster event next) :
    ∃ planned, Plans cluster next planned := by
  cases processes with
  | lost errand => exact ⟨[], Plans.refl cluster⟩
  | served errand => exact plans_applyRequest cluster _ _
  | taken errand done => exact plans_of_applyInput done
  | given done => exact plans_of_applyInput done
  | reported phase now heard =>
    obtain ⟨first, plans⟩ := plans_of_applyInput heard
    obtain ⟨second, more⟩ := plans_applyRequest _ _ _
    exact ⟨first ++ second, plans.trans more⟩

/-! ## Nodes -/

theorem node?_setNode {node : Node} : (cluster.setNode name node).node? other =
    (cluster.node? other).map fun held => if name = other then node else held := by
  simp only [node?, setNode, List.getElem?_set]
  by_cases same : name = other
  · subst same
    by_cases within : name.number.toNat < cluster.nodes.length <;> simp [within]
  · have apart : name.number.toNat ≠ other.number.toNat := mt PeerId.ext_number same
    simp [same, apart]

theorem node?_execute (cluster : Cluster) (output : Output) :
    (execute name cluster output).node? other = (cluster.node? other).map fun held =>
      if name = other then held.without (output.ban? name).toList else held := by
  cases output with
  | ban peer reason duration =>
    simp only [execute, ban]
    split
    next node found =>
      -- The record of the ban is no part of the nodes.
      show (cluster.setNode name _).node? other = _
      rw [node?_setNode]
      refine Option.map_congr fun held member => ?_
      split
      next same =>
        subst same
        cases found.symm.trans member
        rfl
      next => rfl
    next missing =>
      by_cases same : name = other
      · subst same
        rw [missing, Option.map_none]
        exact missing
      · simp only [same, if_false, Option.map_id']
        rfl
  | sendStatusRequest | sendSyncRequest | schedule | prioritize =>
    simp only [Output.ban?, Option.toList_none, Node.without, List.foldl_nil, ite_self,
      Option.map_id']
    rfl

theorem node?_foldl_execute (outputs : List Output) (cluster : Cluster) :
    (outputs.foldl (execute name) cluster).node? other = (cluster.node? other).map fun held =>
      if name = other then held.without (outputs.filterMap (Output.ban? name)) else held := by
  induction outputs generalizing cluster with
  | nil => simp [Node.without]
  | cons output rest ih =>
    rw [List.foldl_cons, ih, node?_execute, Option.map_map]
    refine Option.map_congr fun held member => ?_
    by_cases same : name = other
    · simp only [Function.comp_apply, same, if_true, Node.without, ← List.foldl_append]
      cases banned : output.ban? other <;> simp [banned]
    · simp only [Function.comp_apply, same, if_false]

theorem node?_conclude {outcome : Node.Outcome} : (cluster.conclude name outcome).node? other =
    (cluster.node? other).map fun held =>
      if name = other then outcome.node.without (outcome.outputs.filterMap (Output.ban? name))
      else held := by
  have reported (headers : List Header) (cluster : Cluster) :
      (headers.foldl (report name) cluster).node? other = cluster.node? other := by
    rw [node?, (foldl_report headers cluster).1, node?]
  rw [conclude, reported, node?_foldl_execute, node?_setNode, Option.map_map]
  refine Option.map_congr fun held member => ?_
  by_cases same : name = other
  · simp only [Function.comp_apply, same, if_true]
  · simp only [Function.comp_apply, same, if_false]

theorem node?_applyRequest {request : Responder.Request} :
    (cluster.applyRequest name request).node? other = (cluster.node? other).map fun held =>
      if name = other then (held.serve request).1 else held := by
  cases found : cluster.node? name with
  | none =>
    rw [applyRequest_of_missing found]
    by_cases same : name = other
    · subst same
      rw [found, Option.map_none]
    · simp only [same, if_false, Option.map_id']
  | some node =>
    have posted : (cluster.applyRequest name request).node? other =
        (cluster.setNode name (node.serve request).1).node? other := by
      rw [applyRequest, found, node?, (foldl_post ..).1, node?]
    rw [posted, node?_setNode]
    refine Option.map_congr fun held member => ?_
    by_cases same : name = other
    · subst same
      cases found.symm.trans member
      simp only [if_true]
    · simp only [same, if_false]

/-! ## Records -/

/-- A record of the cluster that every output goes on with goes on with all of them. -/
theorem record_foldl_execute {β : Type} {record : Cluster → List β} {mark : Output → Option β}
    (each : ∀ cluster output,
      record (execute name cluster output) = record cluster ++ (mark output).toList)
    (outputs : List Output) (cluster : Cluster) :
    record (outputs.foldl (execute name) cluster) = record cluster ++ outputs.filterMap mark := by
  induction outputs generalizing cluster with
  | nil => simp
  | cons output rest ih =>
    rw [List.foldl_cons, ih, each, List.append_assoc]
    cases found : mark output <;> simp [found]

theorem view_foldl {α β : Type} (view : Cluster → β) (carry : Cluster → α → Cluster)
    (same : ∀ cluster item, view (carry cluster item) = view cluster) (items : List α)
    (cluster : Cluster) : view (items.foldl carry cluster) = view cluster := by
  induction items generalizing cluster with
  | nil => rfl
  | cons item rest ih => rw [List.foldl_cons, ih, same]

section
variable {outcome : Node.Outcome} {request : Responder.Request}

theorem record_conclude {β : Type} {record : Cluster → List β} {mark : Output → Option β}
    (nodes : ∀ cluster node, record (setNode cluster name node) = record cluster)
    (reports : ∀ cluster header, record (report name cluster header) = record cluster)
    (each : ∀ cluster output,
      record (execute name cluster output) = record cluster ++ (mark output).toList) :
    record (cluster.conclude name outcome) = record cluster ++ outcome.outputs.filterMap mark := by
  rw [conclude, view_foldl record (report name) reports, record_foldl_execute each, nodes]

theorem requests_conclude : (cluster.conclude name outcome).requests =
    cluster.requests ++ outcome.outputs.filterMap (Output.sent? name) := by
  refine record_conclude (fun _ _ => rfl) (fun _ _ => rfl) fun cluster output => ?_
  cases output with
  | ban peer reason duration =>
    simp only [execute, ban]
    split <;> exact (List.append_nil _).symm
  | sendSyncRequest peer request => rfl
  | sendStatusRequest | schedule | prioritize => exact (List.append_nil _).symm

theorem priorities_conclude : (cluster.conclude name outcome).priorities =
    cluster.priorities ++ outcome.outputs.filterMap (Output.priority? name) := by
  refine record_conclude (fun _ _ => rfl) (fun _ _ => rfl) fun cluster output => ?_
  cases output with
  | ban peer reason duration =>
    simp only [execute, ban]
    split <;> exact (List.append_nil _).symm
  | prioritize peer => rfl
  | sendStatusRequest | sendSyncRequest | schedule => exact (List.append_nil _).symm

theorem silent_conclude : (cluster.conclude name outcome).silent = cluster.silent := by
  rw [conclude, view_foldl silent (report name) fun _ _ => rfl]
  refine view_foldl silent (execute name) (fun cluster output => ?_) outcome.outputs _
  cases output with
  | ban peer reason duration =>
    simp only [execute, ban]
    split <;> rfl
  | sendStatusRequest | sendSyncRequest | schedule | prioritize => rfl

/-- Serving a request leaves every record as it is, and who is silent. -/
theorem view_applyRequest {β : Type} (view : Cluster → β)
    (nodes : ∀ cluster node, view (setNode cluster name node) = view cluster)
    (schedules : ∀ cluster delay event, view (schedule cluster delay event) = view cluster) :
    view (cluster.applyRequest name request) = view cluster := by
  rcases applyRequest_cases cluster name request with same | ⟨node, found, same⟩
  · rw [same]
  · rw [same, view_foldl view (post name) fun _ _ => schedules .., nodes]

theorem requests_applyRequest : (cluster.applyRequest name request).requests = cluster.requests :=
  view_applyRequest requests (fun _ _ => rfl) fun _ _ _ => rfl

theorem priorities_applyRequest :
    (cluster.applyRequest name request).priorities = cluster.priorities :=
  view_applyRequest priorities (fun _ _ => rfl) fun _ _ _ => rfl

theorem silent_applyRequest : (cluster.applyRequest name request).silent = cluster.silent :=
  view_applyRequest silent (fun _ _ => rfl) fun _ _ _ => rfl

end

end Cluster

end Catchup
