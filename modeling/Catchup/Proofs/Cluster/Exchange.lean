import Catchup.Proofs.Cluster.Clock

/-! The sync requests of one node to one peer, the responses to them, and the bans they lead to.

A request that is sent is underway until it is delivered, the response to it until it is judged, and
no response is judged twice. So every ban uses up a request of its own. -/

set_option autoImplicit false

namespace Catchup

def Responder.Request.asker? : Responder.Request → Option PeerId
  | .sync peer _ => some peer
  | _ => none

/-- A sync request of the node to the peer, or a response of the peer to the node. -/
def Event.isExchange (node peer : PeerId) : Event → Bool
  | .deliver sender receiver (.syncRequest _) => sender = node ∧ receiver = peer
  | .deliver sender receiver (.syncResponse _) => sender = peer ∧ receiver = node
  | _ => false

namespace Cluster

def requestsTo (cluster : Cluster) (node peer : PeerId) : Nat :=
  cluster.requests.countP fun sent => sent.sender = node ∧ sent.receiver = peer

def bansOf (cluster : Cluster) (node peer : PeerId) : Nat :=
  cluster.bans.countP fun ban => ban.node = node ∧ ban.peer = peer

/-- How many requests of the node to the peer are on their way or being answered. -/
def underway (cluster : Cluster) (node peer : PeerId) : Nat :=
  cluster.agenda.countP fun entry => entry.event.isExchange node peer

variable {cluster middle next : Cluster} {node peer target : PeerId}

theorem underway_eq (cluster : Cluster) (node peer : PeerId) :
    cluster.underway node peer =
      cluster.timetable.countP fun entry => entry.2.isExchange node peer := by
  rw [timetable, List.countP_map]
  rfl

theorem Plans.underway (node peer : PeerId) {planned : List (Nat × Event)}
    (plans : Plans cluster next planned) :
    next.underway node peer = cluster.underway node peer +
      planned.countP fun plan => plan.2.isExchange node peer := by
  rw [underway_eq, underway_eq, plans.perm.countP_eq, List.countP_append, List.countP_map,
    Nat.add_comm]
  rfl

theorem underway_of_agenda {first : Scheduled} {rest : List Scheduled}
    (agenda : cluster.agenda = first :: rest) : cluster.underway node peer =
      (cluster.pop first rest).underway node peer +
        if first.event.isExchange node peer then 1 else 0 := by
  rw [underway, agenda, List.countP_cons]
  rfl

/-- Bans and what may yet lead to one cost a request each, apart from what is on credit. -/
def Charges (node peer : PeerId) (credit : Nat) (cluster next : Cluster) : Prop :=
  next.bansOf node peer + next.underway node peer + cluster.requestsTo node peer ≤
    cluster.bansOf node peer + cluster.underway node peer + next.requestsTo node peer + credit

theorem Charges.refl (cluster : Cluster) : Charges node peer 0 cluster cluster := Nat.le_refl _

theorem Charges.trans {first second : Nat} (charges : Charges node peer first cluster middle)
    (more : Charges node peer second middle next) :
    Charges node peer (first + second) cluster next := by
  unfold Charges at *
  omega

/-! ## Inputs -/

section
variable {outcome : Node.Outcome}

/-- What an output sends and what it puts on its way are the same. -/
theorem isExchange_of_planned? (output : Output) :
    ((output.planned? target).map fun plan => plan.2.isExchange node peer).getD false =
      ((output.sent? target).map fun sent =>
        decide (sent.sender = node ∧ sent.receiver = peer)).getD false := by
  cases output <;> rfl

theorem underway_conclude (cluster : Cluster) (target node peer : PeerId) (outcome : Node.Outcome) :
    (cluster.conclude target outcome).underway node peer +
      cluster.requestsTo node peer =
    cluster.underway node peer + (cluster.conclude target outcome).requestsTo node peer := by
  have reports : (outcome.committed.map fun header =>
      ((commitDelay, .ledgerUpdate target header) : Nat × Event)).countP
        (fun plan => plan.2.isExchange node peer) = 0 := by
    simp [List.countP_eq_zero, Event.isExchange]
  rw [plans_conclude.underway node peer, requestsTo, requestsTo, requests_conclude,
    List.countP_append, List.countP_append, reports, List.countP_filterMap, List.countP_filterMap]
  simp only [isExchange_of_planned?]
  omega

theorem bansOf_conclude (cluster : Cluster) (target node peer : PeerId) (outcome : Node.Outcome) :
    (cluster.conclude target outcome).bansOf node peer = cluster.bansOf node peer +
      (outcome.outputs.filterMap (Output.ban? target)).countP
        (fun ban => ban.node = node ∧ ban.peer = peer) := by
  rw [bansOf, bans_conclude, List.countP_append, bansOf]

end

/-- A node bans the sender of a response that it judges, once and nobody else. -/
theorem countP_bans (target node peer : PeerId) {judge : Judge Ledger} {directory : Directory}
    {ledger after : Ledger} {before : Synchronizer} {given : Input} {bare : Reaction}
    (transition : Synchronizer.Transition judge directory ledger before given bare after) :
    (bare.outputs.filterMap (Output.ban? target)).countP
        (fun ban => ban.node = node ∧ ban.peer = peer) ≤
      if target = node ∧ given.response?.map Prod.fst = some peer then 1 else 0 := by
  rcases transition.judged target with
    ⟨-, none⟩ | ⟨pursuit, sender, extension, verdict, rfl, -, bans⟩
  · rw [none]
    exact Nat.zero_le _
  · rw [bans]
    cases verdict.misconduct? with
    | none => exact Nat.zero_le _
    | some reason => simp [Input.response?, List.countP_singleton]

theorem charges_of_applyInput (node peer : PeerId) {given : Input}
    (done : cluster.applyInput target given = .ok next) :
    Charges node peer (if target = node ∧ given.response?.map Prod.fst = some peer then 1 else 0)
      cluster next := by
  rcases applyInput_eq_ok done with ⟨-, rfl⟩ | ⟨held, outcome, found, step, rfl⟩
  · exact Nat.le_add_right ..
  · obtain ⟨bare, ledger, transition, -, outputs, -⟩ := Node.handle_eq_ok step
    have balance := underway_conclude cluster target node peer outcome
    have bans := countP_bans target node peer transition
    rw [← outputs] at bans
    have banned := bansOf_conclude cluster target node peer outcome
    unfold Charges
    omega

/-! ## Requests -/

/-- Only a sync request is answered with a response, with one at most, and the one who asked gets
it. -/
theorem countP_letters (held : Node) (malicious : PeerSet) (request : Responder.Request) :
    ((held.serve request).2.1.map fun letter => (latency, mail malicious target letter)).countP
        (fun plan => plan.2.isExchange node peer) ≤
      if target = peer ∧ request.asker? = some node then 1 else 0 := by
  cases request with
  | status asker => simp [Node.serve, Responder.handle, mail, tamper, Event.isExchange]
  | sync asker asked =>
    simp only [Node.serve, Responder.handle, Responder.onSyncRequest]
    split
    next extension served =>
      cases told : malicious.contains target <;>
        simp [mail, told, tamper, Event.isExchange, Responder.Request.asker?, List.countP_singleton]
    next unserved => exact Nat.zero_le _
  | ledgerUpdate header phase now =>
    simp only [Node.serve, Responder.handle, Responder.onLedgerUpdate]
    split
    next ahead =>
      split
      next quiet => exact Nat.zero_le _
      next announcing =>
        refine Nat.le_trans (Nat.le_of_eq (List.countP_eq_zero.mpr fun plan member => ?_))
          (Nat.zero_le _)
        obtain ⟨letter, sent, rfl⟩ := List.mem_map.mp member
        simp [mail, Responder.message_of_tell sent, tamper, Event.isExchange]
    next known => exact Nat.zero_le _

theorem requestsTo_applyRequest (cluster : Cluster) (target node peer : PeerId)
    (request : Responder.Request) :
    (cluster.applyRequest target request).requestsTo node peer = cluster.requestsTo node peer := by
  rw [requestsTo, requests_applyRequest, requestsTo]

theorem charges_of_applyRequest (cluster : Cluster) (target node peer : PeerId)
    (request : Responder.Request) :
    Charges node peer (if target = peer ∧ request.asker? = some node then 1 else 0) cluster
      (cluster.applyRequest target request) := by
  have bans :
      (cluster.applyRequest target request).bansOf node peer = cluster.bansOf node peer := by
    rw [bansOf, bans_applyRequest, bansOf]
  have requests := requestsTo_applyRequest cluster target node peer request
  have letters : (cluster.applyRequest target request).underway node peer ≤
      cluster.underway node peer +
        if target = peer ∧ request.asker? = some node then 1 else 0 := by
    rcases applyRequest_cases cluster target request with same | ⟨held, found, same⟩
    · rw [same]
      exact Nat.le_add_right ..
    · rw [same, (plans_foldl_post ..).underway node peer]
      exact Nat.add_le_add_left (countP_letters held cluster.malicious request) _
  unfold Charges
  omega

/-! ## Events -/

/-- What is delivered has been paid for when its request was sent. -/
theorem Processes.charges (node peer : PeerId) {event : Event}
    (processes : Processes cluster event next)
    (fair : ∀ name given, event = .input name given → given.response? = none) :
    Charges node peer (if event.isExchange node peer then 1 else 0) cluster next := by
  cases processes with
  | lost errand => exact Nat.le_add_right ..
  | @served sender receiver message request errand =>
    have charges := charges_of_applyRequest cluster receiver node peer request
    cases message <;> cases errand <;>
      simpa [Event.isExchange, Responder.Request.asker?, and_comm] using charges
  | @taken sender receiver message given next errand done =>
    have charges := charges_of_applyInput node peer done
    cases message <;> cases errand <;>
      simpa [Event.isExchange, Input.response?, and_comm] using charges
  | @given name given next done =>
    have charges := charges_of_applyInput node peer done
    simpa [Event.isExchange, fair name given rfl] using charges
  | @reported name header middle phase now heard =>
    have heard := charges_of_applyInput node peer heard
    have told := charges_of_applyRequest middle name node peer (.ledgerUpdate header phase now)
    simpa [Event.isExchange, Input.response?, Responder.Request.asker?] using heard.trans told

/-! ## Directories -/

/-- The node does not ask the peer, whatever it is told about it. -/
def Excludes (node peer : PeerId) (cluster : Cluster) : Prop :=
  ∀ held, cluster.node? node = some held → held.directory.contains peer = false

theorem contains_without {held : Node} {bans : List Ban} :
    (held.without bans).directory.contains peer = true ↔
      held.directory.contains peer = true ∧ ∀ ban ∈ bans, ban.peer ≠ peer := by
  unfold Node.without
  generalize held.directory = directory
  induction bans generalizing directory with
  | nil => simp
  | cons ban rest ih =>
    rw [List.foldl_cons, ih, PeerSet.contains_iff, PeerSet.mem_erase, PeerSet.contains_iff,
      List.forall_mem_cons, and_assoc, ne_comm]

theorem node_of_ban? {output : Output} {ban : Ban} (banned : output.ban? target = some ban) :
    ban.node = target := by
  cases output <;> cases banned
  rfl

/-- Whoever has been banned is out of the directory, and stays out of it. -/
theorem excludes_of_applyInput {given : Input} (done : cluster.applyInput target given = .ok next)
    (excludes : 0 < cluster.bansOf node peer → Excludes node peer cluster)
    (banned : 0 < next.bansOf node peer) : Excludes node peer next := by
  rcases applyInput_eq_ok done with ⟨-, rfl⟩ | ⟨held, outcome, found, step, rfl⟩
  · exact excludes banned
  obtain ⟨bare, ledger, -, after, -, -⟩ := Node.handle_eq_ok step
  have directory : outcome.node.directory = held.directory := by rw [after]
  rw [bansOf_conclude] at banned
  intro later reached
  rw [node?_conclude] at reached
  by_cases here : target = node
  · subst here
    rw [found, Option.map_some, if_pos rfl] at reached
    cases reached
    refine Bool.eq_false_iff.mpr fun listed => ?_
    obtain ⟨known, spared⟩ := contains_without.mp listed
    -- A peer that is still listed is not among those banned just now.
    have none : (outcome.outputs.filterMap (Output.ban? target)).countP
        (fun ban => ban.node = target ∧ ban.peer = peer) = 0 :=
      List.countP_eq_zero.mpr fun ban member => by simp [spared ban member]
    rw [none, Nat.add_zero] at banned
    rw [directory, excludes banned held found] at known
    cases known
  · have none : (outcome.outputs.filterMap (Output.ban? target)).countP
        (fun ban => ban.node = node ∧ ban.peer = peer) = 0 := by
      refine List.countP_eq_zero.mpr fun ban member => ?_
      obtain ⟨output, -, same⟩ := List.mem_filterMap.mp member
      simp [node_of_ban? same, here]
    simp only [here, if_false, Option.map_id'] at reached
    rw [none, Nat.add_zero] at banned
    exact excludes banned later reached

/-- Requests go out only to peers in the directory. -/
theorem requestsTo_of_applyInput {given : Input} (done : cluster.applyInput target given = .ok next)
    (excludes : Excludes node peer cluster) :
    next.requestsTo node peer = cluster.requestsTo node peer := by
  rcases applyInput_eq_ok done with ⟨-, rfl⟩ | ⟨held, outcome, found, step, rfl⟩
  · rfl
  obtain ⟨bare, ledger, transition, -, outputs, -⟩ := Node.handle_eq_ok step
  rw [requestsTo, requests_conclude, List.countP_append, requestsTo, outputs, Nat.add_eq_left,
    List.countP_eq_zero]
  intro sent member
  obtain ⟨output, given, same⟩ := List.mem_filterMap.mp member
  cases output with
  | sendSyncRequest asked request =>
    cases same
    obtain ⟨pursuit, _, rest, _, -, available, -⟩ := transition.sends_request given
    have listed : held.directory.contains asked = true := by
      have front : asked ∈ Synchronizer.available held.directory pursuit :=
        available ▸ List.mem_cons_self
      exact (List.mem_filter.mp front).2
    simp only [decide_eq_true_eq, not_and]
    rintro rfl rfl
    rw [excludes held found] at listed
    cases listed
  | sendStatusRequest | schedule | ban | prioritize => cases same

theorem excludes_of_applyRequest {request : Responder.Request}
    (excludes : Excludes node peer cluster) :
    Excludes node peer (cluster.applyRequest target request) := by
  intro later reached
  rw [node?_applyRequest, Option.map_eq_some_iff] at reached
  obtain ⟨held, found, rfl⟩ := reached
  split
  next here => exact excludes held found
  next other => exact excludes held found

theorem Processes.excludes {event : Event} (processes : Processes cluster event next)
    (excludes : 0 < cluster.bansOf node peer → Excludes node peer cluster)
    (banned : 0 < next.bansOf node peer) : Excludes node peer next := by
  cases processes with
  | lost errand => exact excludes banned
  | served errand =>
    rw [bansOf, bans_applyRequest] at banned
    exact excludes_of_applyRequest (excludes banned)
  | taken errand done => exact excludes_of_applyInput done excludes banned
  | given done => exact excludes_of_applyInput done excludes banned
  | reported phase now heard =>
    rw [bansOf, bans_applyRequest] at banned
    exact excludes_of_applyRequest (excludes_of_applyInput heard excludes banned)

theorem Processes.requestsTo {event : Event} (processes : Processes cluster event next)
    (excludes : Excludes node peer cluster) :
    next.requestsTo node peer = cluster.requestsTo node peer := by
  cases processes with
  | lost errand => rfl
  | served errand => exact requestsTo_applyRequest ..
  | taken errand done => exact requestsTo_of_applyInput done excludes
  | given done => exact requestsTo_of_applyInput done excludes
  | reported phase now heard =>
    exact (requestsTo_applyRequest ..).trans (requestsTo_of_applyInput heard excludes)

end Cluster

end Catchup
