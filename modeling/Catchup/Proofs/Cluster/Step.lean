import Catchup.Cluster.Run
import Catchup.Proofs.Synchronizer.Transition

/-! What one event can do to a cluster: which nodes it changes, what it puts on the agenda, and whom
it bans. -/

set_option autoImplicit false

namespace Catchup

/-! ## Messages and inputs -/

/-- The response that comes in with an input, and who sends it. -/
def Input.response? : Input → Option (PeerId × Extension)
  | .syncResponse peer extension => some (peer, extension)
  | _ => none

def Event.response? : Event → Option (PeerId × Extension)
  | .deliver sender _ message =>
    match message.errand sender with
    | .serve _ => none
    | .take given => given.response?
  | .input _ given => given.response?
  | .ledgerUpdate .. => none

namespace Output

/-- What carrying out the output puts on the agenda. -/
def event? (name : PeerId) : Output → Option Event
  | .sendStatusRequest peer => some (.deliver name peer (.statusRequest {}))
  | .sendSyncRequest peer request => some (.deliver name peer (.syncRequest request))
  | .schedule timeout _ => some (.input name timeout.input)
  | .ban .. => none
  | .prioritize _ => none

theorem response?_of_event? {name : PeerId} {output : Output} {event : Event}
    (caused : output.event? name = some event) : event.response? = none := by
  cases output with
  | sendStatusRequest peer => cases caused; rfl
  | sendSyncRequest peer request => cases caused; rfl
  | schedule timeout delay => cases caused; cases timeout <;> rfl
  | ban peer reason seconds => cases caused
  | prioritize peer => cases caused

def ban? (name : PeerId) : Output → Option Ban
  | .ban peer reason _ => some ⟨name, peer, reason⟩
  | _ => none

end Output

def Verdict.misconduct? : Verdict → Option Misconduct
  | .malicious reason => some reason
  | _ => none

/-! ## Nodes -/

namespace Synchronizer

variable {σ : Type} {judge : Judge σ} {directory : Directory} {store after : σ}
  {before : Synchronizer} {input : Input} {bare : Reaction}

theorem Pursues.bans_no_one {pursuit : Pursuit} (pursues : Pursues directory before pursuit bare)
    (name : PeerId) : bare.outputs.filterMap (Output.ban? name) = [] := by
  cases pursues <;> rfl

/-- Only a judged response touches the store, and only a malicious one leads to a ban. -/
theorem Transition.judged (transition : Transition judge directory store before input bare after)
    (name : PeerId) :
    (after = store ∧ bare.outputs.filterMap (Output.ban? name) = []) ∨
    ∃ pursuit peer extension verdict, input = .syncResponse peer extension ∧
      judge pursuit peer extension store = (verdict, after) ∧
      bare.outputs.filterMap (Output.ban? name) =
        verdict.misconduct?.toList.map fun reason => ⟨name, peer, reason⟩ := by
  cases transition with
  | checkStarted phase window somebody number =>
    refine .inl ⟨rfl, ?_⟩
    simp [Output.ban?]
  | resumed resumes pursues => exact .inl ⟨rfl, pursues.bans_no_one name⟩
  | unsolicited phase judged => exact .inr ⟨_, _, _, _, rfl, judged, rfl⟩
  | malicious phase judged => exact .inr ⟨_, _, _, _, rfl, judged, rfl⟩
  | accepted phase judged => exact .inr ⟨_, _, _, _, rfl, judged, rfl⟩
  | ignored | unasked | answered | checkClosed | adopted | satisfied => exact .inl ⟨rfl, rfl⟩

end Synchronizer

theorem Node.handle_eq_ok {proofs : Proofs} {node : Node} {input : Input} {outcome : Outcome}
    (done : node.handle proofs input = .ok outcome) :
    ∃ bare ledger, Synchronizer.Transition (Verification.judge proofs Ledger.committer)
        node.directory node.ledger node.synchronizer input bare ledger ∧
      outcome.node =
        { node with ledger := ledger.takeUnreported.2, synchronizer := bare.synchronizer } ∧
      outcome.outputs = bare.outputs ∧ outcome.committed = ledger.takeUnreported.1 := by
  obtain ⟨⟨reaction, ledger⟩, step, rest⟩ := exists_of_bind_eq_ok done
  obtain ⟨bare, transition, rfl⟩ := Synchronizer.transition_of_handle step
  cases rest
  exact ⟨bare, ledger, transition, rfl, rfl, rfl⟩

namespace Cluster

def ledgers (cluster : Cluster) : List Ledger := cluster.nodes.map (·.ledger)

variable {cluster next : Cluster} {name : PeerId} {entry : Scheduled}

theorem getElem?_ledgers {node : Node} (found : cluster.node? name = some node) :
    cluster.ledgers[name.number.toNat]? = some node.ledger := by
  rw [ledgers, List.getElem?_map]
  exact congrArg (Option.map _) found

theorem mem_ledgers {node : Node} (found : cluster.node? name = some node) :
    node.ledger ∈ cluster.ledgers :=
  List.mem_of_getElem? (getElem?_ledgers found)

/-! ## Scheduling -/

theorem mem_place {other : Scheduled} {agenda : List Scheduled} :
    other ∈ place entry agenda ↔ other = entry ∨ other ∈ agenda := by
  conv => rhs; rw [← List.takeWhile_append_dropWhile (l := agenda) (p := (·.due ≤ entry.due))]
  simp only [place, List.mem_append, List.mem_cons]
  exact or_left_comm

theorem mem_agenda_schedule {delay : Nat} {event : Event} :
    entry ∈ (cluster.schedule delay event).agenda ↔
      entry = ⟨cluster.now + delay, cluster.scheduled + 1, event⟩ ∨ entry ∈ cluster.agenda :=
  mem_place

/-- Whatever is on the new agenda was there before, or is one of these events. -/
def Adds (cluster next : Cluster) (events : List Event) : Prop :=
  ∀ entry ∈ next.agenda, entry ∈ cluster.agenda ∨ entry.event ∈ events

theorem Adds.refl (cluster : Cluster) : Adds cluster cluster [] := fun _ member => .inl member

theorem Adds.schedule (cluster : Cluster) (delay : Nat) (event : Event) :
    Adds cluster (cluster.schedule delay event) [event] := by
  intro entry member
  rcases mem_agenda_schedule.mp member with rfl | earlier
  · exact .inr (List.mem_singleton.mpr rfl)
  · exact .inl earlier

theorem Adds.trans {middle : Cluster} {first second : List Event} (adds : Adds cluster middle first)
    (more : Adds middle next second) : Adds cluster next (first ++ second) := by
  intro entry member
  rcases more entry member with earlier | added
  · rcases adds entry earlier with before | added
    · exact .inl before
    · exact .inr (List.mem_append_left second added)
  · exact .inr (List.mem_append_right first added)

theorem Adds.foldl {α : Type} (carry : Cluster → α → Cluster) (events : α → List Event)
    (adds : ∀ cluster item, Adds cluster (carry cluster item) (events item)) (items : List α)
    (cluster : Cluster) : Adds cluster (items.foldl carry cluster) (items.flatMap events) := by
  induction items generalizing cluster with
  | nil => exact Adds.refl cluster
  | cons item rest ih => exact (adds cluster item).trans (ih _)

/-! ## Carrying out -/

theorem map_set_of_getElem? {α β : Type} {view : α → β} {items : List α} {position : Nat}
    {old new : α} (found : items[position]? = some old) (same : view new = view old) :
    (items.set position new).map view = items.map view := by
  apply List.ext_getElem?
  intro index
  rw [List.getElem?_map, List.getElem?_map]
  by_cases here : position = index
  · subst here
    simp [found, same, List.getElem?_set_self (List.getElem?_eq_some_iff.mp found).1]
  · rw [List.getElem?_set_ne here]

theorem ledgers_setNode {node : Node} :
    (cluster.setNode name node).ledgers = cluster.ledgers.set name.number.toNat node.ledger :=
  List.map_set ..

/-- Nothing but the directory of the node changes. -/
theorem map_nodes_execute {β : Type} {view : Node → β}
    (blind : ∀ node directory, view { node with directory } = view node) (output : Output) :
    (execute name cluster output).nodes.map view = cluster.nodes.map view := by
  cases output with
  | ban peer reason seconds =>
    simp only [execute, ban]
    split
    next node found => exact map_set_of_getElem? found (blind node _)
    next missing => rfl
  | sendStatusRequest | sendSyncRequest | schedule | prioritize => rfl

theorem map_nodes_foldl_execute {β : Type} {view : Node → β}
    (blind : ∀ node directory, view { node with directory } = view node) (outputs : List Output)
    (cluster : Cluster) :
    (outputs.foldl (execute name) cluster).nodes.map view = cluster.nodes.map view := by
  induction outputs generalizing cluster with
  | nil => rfl
  | cons output rest ih => rw [List.foldl_cons, ih, map_nodes_execute blind]

theorem malicious_execute (output : Output) :
    (execute name cluster output).malicious = cluster.malicious := by
  cases output with
  | ban peer reason seconds =>
    simp only [execute, ban]
    split <;> rfl
  | sendStatusRequest | sendSyncRequest | schedule | prioritize => rfl

theorem bans_execute (output : Output) :
    (execute name cluster output).bans = cluster.bans ++ (output.ban? name).toList := by
  cases output with
  | ban peer reason seconds =>
    simp only [execute, ban]
    split <;> rfl
  | sendStatusRequest | sendSyncRequest | schedule | prioritize =>
    exact (List.append_nil cluster.bans).symm

theorem adds_execute (cluster : Cluster) (output : Output) :
    Adds cluster (execute name cluster output) (output.event? name).toList := by
  cases output with
  | ban peer reason seconds =>
    simp only [execute, ban]
    split <;> exact fun entry member => .inl member
  | prioritize peer => exact fun entry member => .inl member
  | sendStatusRequest peer => exact Adds.schedule cluster _ _
  | schedule timeout delay => exact Adds.schedule cluster _ _
  | sendSyncRequest peer request =>
    let sent : Cluster :=
      { cluster with requests := cluster.requests ++ [⟨name, peer, request.id⟩] }
    exact Adds.schedule sent latency _

theorem malicious_foldl_execute (outputs : List Output) (cluster : Cluster) :
    (outputs.foldl (execute name) cluster).malicious = cluster.malicious := by
  induction outputs generalizing cluster with
  | nil => rfl
  | cons output rest ih => rw [List.foldl_cons, ih, malicious_execute]

theorem bans_foldl_execute (outputs : List Output) (cluster : Cluster) :
    (outputs.foldl (execute name) cluster).bans =
      cluster.bans ++ outputs.filterMap (Output.ban? name) := by
  induction outputs generalizing cluster with
  | nil => simp
  | cons output rest ih =>
    rw [List.foldl_cons, ih, bans_execute, List.append_assoc]
    cases found : output.ban? name <;> simp [found]

/-! ## Inputs -/

theorem foldl_report (headers : List Header) (cluster : Cluster) :
    (headers.foldl (report name) cluster).nodes = cluster.nodes ∧
    (headers.foldl (report name) cluster).malicious = cluster.malicious ∧
    (headers.foldl (report name) cluster).bans = cluster.bans := by
  induction headers generalizing cluster with
  | nil => exact ⟨rfl, rfl, rfl⟩
  | cons header rest ih => exact ih (cluster.report name header)

section
variable {outcome : Node.Outcome}

theorem ledgers_conclude :
    (cluster.conclude name outcome).ledgers =
      cluster.ledgers.set name.number.toNat outcome.node.ledger := by
  rw [conclude, ledgers, (foldl_report ..).1, map_nodes_foldl_execute fun _ _ => rfl]
  exact ledgers_setNode

theorem malicious_conclude : (cluster.conclude name outcome).malicious = cluster.malicious := by
  rw [conclude, (foldl_report ..).2.1, malicious_foldl_execute]
  rfl

theorem bans_conclude : (cluster.conclude name outcome).bans =
    cluster.bans ++ outcome.outputs.filterMap (Output.ban? name) := by
  rw [conclude, (foldl_report ..).2.2, bans_foldl_execute]
  rfl

theorem adds_conclude : Adds cluster (cluster.conclude name outcome)
    ((outcome.outputs.flatMap fun output => (output.event? name).toList) ++
      outcome.committed.flatMap fun header => [.ledgerUpdate name header]) := by
  have outputs := Adds.foldl (execute name) (fun output => (output.event? name).toList)
    adds_execute outcome.outputs (cluster.setNode name outcome.node)
  have reports := Adds.foldl (report name) (fun header => [.ledgerUpdate name header])
    (fun cluster header => Adds.schedule cluster commitDelay _) outcome.committed
  exact outputs.trans (reports _)

end

theorem applyInput_eq_ok {input : Input} (done : cluster.applyInput name input = .ok next) :
    (cluster.node? name = none ∧ next = cluster) ∨
    ∃ node outcome, cluster.node? name = some node ∧
      node.handle .trusting input = .ok outcome ∧ next = cluster.conclude name outcome := by
  unfold applyInput at done
  split at done
  next missing => cases done; exact .inl ⟨missing, rfl⟩
  next node found =>
    obtain ⟨outcome, step, rfl⟩ := exists_of_map_eq_ok done
    exact .inr ⟨node, outcome, found, step, rfl⟩

/-! ## Requests -/

theorem foldl_post (letters : List Letter) (cluster : Cluster) :
    (letters.foldl (post name) cluster).nodes = cluster.nodes ∧
    (letters.foldl (post name) cluster).malicious = cluster.malicious ∧
    (letters.foldl (post name) cluster).bans = cluster.bans := by
  induction letters generalizing cluster with
  | nil => exact ⟨rfl, rfl, rfl⟩
  | cons letter rest ih => exact ih (cluster.post name letter)

def mail (malicious : PeerSet) (name : PeerId) (letter : Letter) : Event :=
  .deliver name letter.peer
    (if malicious.contains name then tamper letter.message else letter.message)

theorem adds_foldl_post (letters : List Letter) (cluster : Cluster) :
    Adds cluster (letters.foldl (post name) cluster)
      (letters.map (mail cluster.malicious name)) := by
  induction letters generalizing cluster with
  | nil => exact Adds.refl cluster
  | cons letter rest ih =>
    -- Posting leaves the malicious nodes as they are, so the rest is mailed as this letter is.
    have posted : Adds cluster (cluster.post name letter) [mail cluster.malicious name letter] :=
      Adds.schedule cluster latency _
    exact posted.trans (ih (cluster.post name letter))

section
variable {request : Responder.Request}

theorem applyRequest_cases (cluster : Cluster) (name : PeerId) (request : Responder.Request) :
    cluster.applyRequest name request = cluster ∨ ∃ node, cluster.node? name = some node ∧
      cluster.applyRequest name request = (node.serve request).2.1.foldl (post name)
        (cluster.setNode name (node.serve request).1) := by
  unfold applyRequest
  split
  next missing => exact .inl rfl
  next node found => exact .inr ⟨node, found, rfl⟩

theorem ledgers_applyRequest : (cluster.applyRequest name request).ledgers = cluster.ledgers := by
  rcases applyRequest_cases cluster name request with same | ⟨node, found, same⟩
  · rw [same]
  · rw [same, ledgers, (foldl_post ..).1]
    exact map_set_of_getElem? found rfl

theorem malicious_applyRequest :
    (cluster.applyRequest name request).malicious = cluster.malicious := by
  rcases applyRequest_cases cluster name request with same | ⟨node, found, same⟩
  · rw [same]
  · rw [same, (foldl_post ..).2.1]
    rfl

theorem bans_applyRequest : (cluster.applyRequest name request).bans = cluster.bans := by
  rcases applyRequest_cases cluster name request with same | ⟨node, found, same⟩
  · rw [same]
  · rw [same, (foldl_post ..).2.2]
    rfl

theorem adds_applyRequest (cluster : Cluster) (name : PeerId) (request : Responder.Request) :
    Adds cluster (cluster.applyRequest name request) [] ∨
    ∃ node, cluster.node? name = some node ∧ Adds cluster (cluster.applyRequest name request)
      ((node.serve request).2.1.map (mail cluster.malicious name)) := by
  rcases applyRequest_cases cluster name request with same | ⟨node, found, same⟩
  · exact .inl (same.symm ▸ Adds.refl cluster)
  · refine .inr ⟨node, found, ?_⟩
    rw [same]
    exact adds_foldl_post _ (cluster.setNode name (node.serve request).1)

end

/-! ## Events -/

/-- What processing an event comes down to. -/
inductive Processes (cluster : Cluster) : Event → Cluster → Prop where
  | lost {sender receiver : PeerId} {message : Message} {asked : SyncRequest} :
      message.errand sender = .serve (.sync sender asked) →
      Processes cluster (.deliver sender receiver message) cluster
  | served {sender receiver : PeerId} {message : Message} {request : Responder.Request} :
      message.errand sender = .serve request →
      Processes cluster (.deliver sender receiver message) (cluster.applyRequest receiver request)
  | taken {sender receiver : PeerId} {message : Message} {given : Input} {next : Cluster} :
      message.errand sender = .take given → cluster.applyInput receiver given = .ok next →
      Processes cluster (.deliver sender receiver message) next
  | given {name : PeerId} {given : Input} {next : Cluster} :
      cluster.applyInput name given = .ok next → Processes cluster (.input name given) next
  /-- Both sides of the node hear of the report, one after the other. -/
  | reported {name : PeerId} {header : Header} {middle : Cluster} (phase : PhaseKind) (now : Nat) :
      cluster.applyInput name (.ledgerUpdate header) = .ok middle →
      Processes cluster (.ledgerUpdate name header)
        (middle.applyRequest name (.ledgerUpdate header phase now))

theorem applyRequest_of_missing {request : Responder.Request}
    (missing : cluster.node? name = none) : cluster.applyRequest name request = cluster := by
  simp [applyRequest, missing]

theorem processes_of_process {event : Event} (done : cluster.process event = .ok next) :
    Processes cluster event next := by
  cases event with
  | deliver sender receiver message =>
    simp only [process, deliver] at done
    split at done
    next peer asked errand =>
      cases done
      split
      next silent =>
        have sent : peer = sender := by cases message <;> cases errand; rfl
        exact .lost (sent ▸ errand)
      next listening => exact .served errand
    next request errand => cases done; exact .served errand
    next given errand => exact .taken errand done
  | input name given => exact .given done
  | ledgerUpdate name header =>
    obtain ⟨middle, heard, rest⟩ := exists_of_bind_eq_ok done
    cases rest
    split
    next missing =>
      have reported := Processes.reported .idle 0 heard
      rw [applyRequest_of_missing missing] at reported
      exact reported
    next node found => exact .reported _ _ heard

/-- The first event is taken off the agenda, and the clock shows when it was due. -/
def pop (cluster : Cluster) (first : Scheduled) (rest : List Scheduled) : Cluster :=
  { cluster with agenda := rest, now := first.due }

theorem step_eq_ok (done : cluster.step = .ok next) :
    (cluster.agenda = [] ∧ next = cluster) ∨ ∃ first rest, cluster.agenda = first :: rest ∧
      (cluster.pop first rest).process first.event = .ok next := by
  unfold step at done
  split at done
  next empty => cases done; exact .inl ⟨empty, rfl⟩
  next first rest agenda => exact .inr ⟨first, rest, agenda, done⟩

/-! ## Local commits -/

theorem commitLocal_eq_ok {count : Nat} {header : Header}
    (done : cluster.commitLocal name count = .ok (header, next)) :
    ∃ node ledger, cluster.node? name = some node ∧
      node.ledger.version.toNat + count < UInt64.size ∧
      node.ledger.append ((List.range count).map fun offset =>
        .generated (node.ledger.version.toNat + offset)) = (.ok header, ledger) ∧
      next =
        (cluster.setNode name { node with ledger }).schedule 0 (.ledgerUpdate name header) := by
  unfold commitLocal at done
  split at done
  next missing => cases done
  next node found =>
    simp only at done
    split at done
    next full => cases done
    next room =>
      cases appended : node.ledger.append ((List.range count).map fun offset =>
          .generated (node.ledger.version.toNat + offset)) with
      | mk result ledger =>
        rw [appended] at done
        cases result with
        | error fault => cases done
        | ok top =>
          cases done
          exact ⟨node, ledger, found, Nat.not_le.mp room, appended, rfl⟩

end Cluster

end Catchup
