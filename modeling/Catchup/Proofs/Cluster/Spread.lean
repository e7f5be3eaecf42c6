import Catchup.Proofs.Cluster.Clock
import Catchup.Proofs.Synchronizer.Commit

/-! How a version spreads through a cluster, and whom that leaves alone.

Nodes that hold the version tell others, these ask for it, commit it and tell others in turn. Nobody
is told of anything higher, so a node that is idle at that version takes no notice of all this. Each
of the others asks once, and its timers are due after the time looked at, one second. -/

set_option autoImplicit false

namespace Catchup

/-- The inputs that bring the version: news of it, an extension up to it, the report of it. -/
def Input.Brings (top : Version) : Input → Prop
  | .advertisement _ header => header.version = top
  | .syncResponse _ extension => extension.finish.version = top
  | .ledgerUpdate header => header.version = top
  | _ => False

/-- Only who has brought news is asked for more, and no timer is due within a second. -/
def Output.Answers (given : Input) : Output → Prop
  | .sendStatusRequest _ => False
  | .sendSyncRequest peer _ => ∃ header, given = .advertisement peer header
  | .schedule _ delay => 1_000_000_000 ≤ delay
  | .ban .. | .prioritize _ => True

/-! ## Synchronizers -/

namespace Synchronizer

/-- On the way to the version. Below it the synchronizer has sent no request, or is after it. -/
structure Approaches (top : Version) (synchronizer : Synchronizer) : Prop where
  settings : synchronizer.settings = {}
  idle : ∀ head, synchronizer.phase = .idle head → head.version < top →
    synchronizer.nextRequest = ⟨1⟩
  syncing : ∀ pursuit, synchronizer.phase = .syncing pursuit → pursuit.target.version = top

section
variable {σ : Type} {judge : Judge σ} {directory : Directory} {store after : σ}
  {before : Synchronizer} {input : Input} {bare : Reaction} {top : Version}

theorem Resumes.not_closes {check : StatusCheck} (closes : Closes before input check)
    (brings : input.Brings top) : False := by
  cases closes <;> cases brings

theorem isAheadOf_eq_false {header other : Header} (same : header.version = other.version) :
    header.isAheadOf other = false := by
  rw [Header.isAheadOf_eq_false_iff, same]
  exact Version.le_refl _

/-- A report of the version ends the pursuit of it. -/
theorem isSynced_withHead {pursuit : Pursuit} {header : Header}
    (same : pursuit.target.version = header.version) : (pursuit.withHead header).isSynced = true :=
  decide_eq_true (Version.le_iff.mpr (Nat.le_of_eq (congrArg Version.toNat same)))

theorem Approaches.not_overflows (approaches : before.Approaches top) (brings : input.Brings top)
    (fault : Fault) : ¬ Overflows directory before input fault := by
  intro overflows
  cases overflows with
  | offset | check => cases brings
  | request resumes asks full =>
    cases resumes with
    | check closes => exact Resumes.not_closes closes brings
    | timeout | overdue | requested => cases brings
    | ledgerUpdate phase ahead =>
      -- The report ends the pursuit, so there is nothing to ask for any more.
      have reached := isSynced_withHead ((approaches.syncing _ phase).trans brings.symm)
      rw [asks.behind] at reached
      cases reached
    | advertised phase known ahead =>
      -- Whoever is below the version has sent no request yet, so the next number fits.
      have below := Header.isAheadOf_iff_lt.mp ahead
      rw [approaches.idle _ phase (brings ▸ below)] at full
      cases full
    | raised phase known ahead =>
      rw [isAheadOf_eq_false (Eq.trans brings (approaches.syncing _ phase).symm)] at ahead
      cases ahead

theorem Approaches.of_idle {synchronizer : Synchronizer} {head : Header}
    (settings : synchronizer.settings = {}) (phase : synchronizer.phase = .idle head)
    (reached : head.version = top) : synchronizer.Approaches top := by
  refine ⟨settings, fun other same below => ?_, fun pursuit same => ?_⟩
  · cases phase.symm.trans same
    exact absurd (Version.lt_iff.mp below) (reached ▸ Nat.lt_irrefl _)
  · cases phase.symm.trans same

theorem Approaches.of_syncing {synchronizer : Synchronizer} {pursuit : Pursuit}
    (settings : synchronizer.settings = {}) (phase : synchronizer.phase = .syncing pursuit)
    (target : pursuit.target.version = top) : synchronizer.Approaches top := by
  refine ⟨settings, fun head same => ?_, fun other same => ?_⟩
  · cases phase.symm.trans same
  · cases phase.symm.trans same
    exact target

theorem Resumes.approaches {pursuit : Pursuit} {metrics : List Metric}
    (approaches : before.Approaches top) (brings : input.Brings top)
    (resumes : Resumes directory before input pursuit metrics)
    (pursues : Pursues directory before pursuit bare) :
    bare.synchronizer.Approaches top ∧ ∀ output ∈ bare.outputs, output.Answers input := by
  cases resumes with
  | check closes => exact (Resumes.not_closes closes brings).elim
  | timeout | overdue | requested => cases brings
  | raised phase known ahead =>
    rw [isAheadOf_eq_false (Eq.trans brings (approaches.syncing _ phase).symm)] at ahead
    cases ahead
  | ledgerUpdate phase ahead =>
    have reached := isSynced_withHead ((approaches.syncing _ phase).trans brings.symm)
    cases pursues with
    | reached => exact ⟨.of_idle approaches.settings rfl brings, nofun⟩
    | waiting behind | exhausted behind | asked behind =>
      rw [reached] at behind
      cases behind
  | @advertised sender head header phase known ahead =>
    cases pursues with
    | reached synced =>
      have below := Version.not_lt.mpr (of_decide_eq_true synced)
      exact absurd (Header.isAheadOf_iff_lt.mp ahead) below
    | waiting behind out => exact absurd rfl out
    | exhausted => exact ⟨.of_syncing approaches.settings rfl brings, nofun⟩
    | asked behind free found next =>
      refine ⟨.of_syncing approaches.settings rfl brings, fun output member => ?_⟩
      rcases List.mem_cons.mp member with rfl | timer
      · -- Nobody else is a candidate.
        have candidate := List.mem_of_mem_filter (found ▸ List.mem_cons_self)
        exact ⟨header, by rw [List.mem_singleton.mp candidate]⟩
      · cases List.mem_singleton.mp timer
        rw [Output.Answers, approaches.settings]
        decide

theorem Transition.approaches (approaches : before.Approaches top) (brings : input.Brings top)
    (transition : Transition judge directory store before input bare after) :
    bare.synchronizer.Approaches top ∧ ∀ output ∈ bare.outputs, output.Answers input := by
  cases transition with
  | ignored => exact ⟨approaches, nofun⟩
  | unasked | checkStarted | answered | satisfied => cases brings
  | checkClosed closes => exact (Resumes.not_closes closes brings).elim
  | resumed resumes pursues =>
    have after := resumes.approaches approaches brings pursues
    exact ⟨⟨after.1.settings, after.1.idle, after.1.syncing⟩, after.2⟩
  | unsolicited => exact ⟨approaches, nofun⟩
  | malicious =>
    refine ⟨approaches, fun output member => ?_⟩
    cases List.mem_singleton.mp member
    trivial
  | @accepted pursuit peer extension after phase =>
    have target := approaches.syncing pursuit phase
    refine ⟨.of_syncing approaches.settings rfl target, fun output member => ?_⟩
    rcases List.mem_cons.mp member with rfl | timer
    · trivial
    · cases List.mem_singleton.mp timer
      rw [Output.Answers, approaches.settings]
  | @adopted header other ahead =>
    cases phase : before.phase with
    | idle head => exact ⟨.of_idle approaches.settings rfl brings, nofun⟩
    | checking check => exact ⟨⟨approaches.settings, nofun, nofun⟩, nofun⟩
    | syncing pursuit => exact absurd (phase ▸ rfl) other

/-- Whoever is idle at the version ignores what brings it. -/
theorem Transition.ignores {head : Header} (phase : before.phase = .idle head)
    (reached : head.version = top) (brings : input.Brings top)
    (transition : Transition judge directory store before input bare after) :
    bare = before.quietly ∧ after = store := by
  have notAhead {header : Header} (same : header.version = top)
      (ahead : header.isAheadOf head = true) : False := by
    rw [isAheadOf_eq_false (same.trans reached.symm)] at ahead
    cases ahead
  cases transition with
  | ignored => exact ⟨rfl, rfl⟩
  | unasked | checkStarted | answered | satisfied => cases brings
  | checkClosed closes => exact (Resumes.not_closes closes brings).elim
  | resumed resumes pursues =>
    cases resumes with
    | check closes => exact (Resumes.not_closes closes brings).elim
    | timeout | overdue | requested => cases brings
    | ledgerUpdate other | raised other => cases phase.symm.trans other
    | advertised other known ahead =>
      cases phase.symm.trans other
      exact (notAhead brings ahead).elim
  | unsolicited other | malicious other | accepted other => cases phase.symm.trans other
  | adopted other ahead =>
    rw [Synchronizer.head, phase] at ahead
    exact (notAhead brings ahead).elim

end

end Synchronizer

/-! ## Nodes -/

/-- A request for what holders of the version have, or the report of it. -/
def Responder.Request.Brings (top : Version) : Responder.Request → Prop
  | .status _ => False
  | .sync .. => True
  | .ledgerUpdate header _ _ => header.version = top

theorem Ledger.finish_of_extensionFrom {ledger : Ledger} {start : Header} {extension : Extension}
    (served : ledger.extensionFrom start = some extension) : extension.finish = ledger.header := by
  unfold extensionFrom at served
  split at served
  · cases served
  · split at served
    · cases served
    · split at served
      · cases served
      · cases served
        rfl

namespace Node

variable {node : Node} {outcome : Outcome} {given : Input} {proofs : Proofs} {top : Version}

theorem exists_handle (proofs : Proofs) (given : Input) (fits : ∀ fault,
      ¬ Synchronizer.Overflows node.directory node.synchronizer given fault) :
    ∃ outcome, node.handle proofs given = .ok outcome := by
  rcases Synchronizer.handle_cases (Verification.judge proofs Ledger.committer) node.directory
      node.ledger node.synchronizer given with ⟨bare, ledger, -, done⟩ | ⟨fault, overflows, -⟩
  · rw [handle, done]
    exact ⟨_, rfl⟩
  · exact absurd overflows (fits fault)

structure Approaches (top : Version) (node : Node) : Prop where
  synchronizer : node.synchronizer.Approaches top
  reported : node.ledger.unreported = []

theorem Approaches.exists_handle (approaches : node.Approaches top) (proofs : Proofs)
    (given : Input) (brings : given.Brings top) :
    ∃ outcome, node.handle proofs given = .ok outcome :=
  Node.exists_handle proofs given (approaches.synchronizer.not_overflows brings)

/-- Either the ledger stays as it is, or it has got to the version, and that has to be reported. -/
theorem Approaches.handle (approaches : node.Approaches top) (brings : given.Brings top)
    (done : node.handle proofs given = .ok outcome) :
    outcome.node.Approaches top ∧ (∀ output ∈ outcome.outputs, output.Answers given) ∧
    ((outcome.node.ledger = node.ledger ∧ outcome.committed = []) ∨
      outcome.node.ledger.version = top ∧ ∀ header ∈ outcome.committed, header.version = top) := by
  obtain ⟨bare, ledger, transition, after, outputs, committed⟩ := handle_eq_ok done
  obtain ⟨synchronizer, answers⟩ := transition.approaches approaches.synchronizer brings
  rw [after, outputs, committed]
  refine ⟨⟨synchronizer, rfl⟩, answers, ?_⟩
  rcases transition.commit_cases with ⟨rfl, -⟩ | ⟨pursuit, peer, extension, rfl, -, judged, -⟩
  · rw [Ledger.takeUnreported_of_reported approaches.reported]
    exact .inl ⟨rfl, rfl⟩
  · obtain ⟨-, -, taken⟩ := (Verification.decides_of_judge judged).accepted
    obtain ⟨-, -, -, rfl⟩ := Ledger.commit_eq_ok_iff.mp (Verification.committer_eq_ok_iff.mp taken)
    refine .inr ⟨brings, fun header member => ?_⟩
    simp only [Ledger.takeUnreported, approaches.reported, List.nil_append] at member
    exact List.mem_singleton.mp member ▸ brings

theorem handle_of_rest {header : Header} (approaches : node.Approaches top)
    (phase : node.synchronizer.phase = .idle header) (reached : header.version = top)
    (brings : given.Brings top) (done : node.handle proofs given = .ok outcome) :
    outcome.node = node ∧ outcome.outputs = [] ∧ outcome.committed = [] := by
  obtain ⟨bare, ledger, transition, after, outputs, committed⟩ := handle_eq_ok done
  obtain ⟨rfl, rfl⟩ := transition.ignores phase reached brings
  rw [after, outputs, committed, Ledger.takeUnreported_of_reported approaches.reported]
  exact ⟨rfl, rfl, rfl⟩

/-- What a node at the version serves is the version, or news of it. -/
theorem letters_of_serve {request : Responder.Request} (brings : request.Brings top)
    (holds : node.ledger.version = top) {letter : Letter}
    (sent : letter ∈ (node.serve request).2.1) :
    (∃ response, letter.message = .syncResponse response ∧
      response.extension.finish.version = top) ∨
    ∃ update, letter.message = .statusUpdate update ∧ update.header.version = top := by
  cases request with
  | status => cases brings
  | sync peer request =>
    simp only [serve, Responder.handle, Responder.onSyncRequest] at sent
    split at sent
    next extension served =>
      cases List.mem_singleton.mp sent
      refine .inl ⟨_, rfl, ?_⟩
      rw [Ledger.finish_of_extensionFrom served]
      exact holds
    next => cases sent
  | ledgerUpdate header phase now =>
    simp only [serve, Responder.handle, Responder.onLedgerUpdate] at sent
    split at sent
    · split at sent
      · cases sent
      · exact .inr ⟨_, Responder.message_of_tell sent, brings⟩
    · cases sent

end Node

namespace Cluster

variable {cluster middle next : Cluster} {name target : PeerId} {top : Version} {header : Header}

/-! ## Records of a node -/

/-- Whom the node has sent sync requests, in order. -/
def requestedBy (cluster : Cluster) (name : PeerId) : List PeerId :=
  (cluster.requests.filter fun sent => sent.sender = name).map (·.receiver)

def prioritizedBy (cluster : Cluster) (name : PeerId) : List PeerId :=
  (cluster.priorities.filter fun priority => priority.node = name).map (·.peer)

section
variable {outcome : Node.Outcome}

theorem filter_of_owned {β : Type} {marks : List β} {owner : β → PeerId}
    (owned : ∀ mark ∈ marks, owner mark = target) :
    marks.filter (fun mark => owner mark = name) = if target = name then marks else [] := by
  split
  next here =>
    exact List.filter_eq_self.mpr fun mark member => decide_eq_true ((owned mark member).trans here)
  next other =>
    refine List.filter_eq_nil_iff.mpr fun mark member same => other ?_
    exact (owned mark member).symm.trans (of_decide_eq_true same)

theorem requestedBy_conclude : (cluster.conclude target outcome).requestedBy name =
    cluster.requestedBy name ++ if target = name
      then (outcome.outputs.filterMap (Output.sent? target)).map (·.receiver) else [] := by
  have owned (sent : SentRequest)
      (member : sent ∈ outcome.outputs.filterMap (Output.sent? target)) :
      sent.sender = target := by
    obtain ⟨output, -, same⟩ := List.mem_filterMap.mp member
    cases output <;> cases same
    rfl
  rw [requestedBy, requests_conclude, List.filter_append, filter_of_owned owned, List.map_append,
    requestedBy]
  split <;> rfl

theorem prioritizedBy_conclude : (cluster.conclude target outcome).prioritizedBy name =
    cluster.prioritizedBy name ++ if target = name
      then (outcome.outputs.filterMap (Output.priority? target)).map (·.peer) else [] := by
  have owned (priority : Priority)
      (member : priority ∈ outcome.outputs.filterMap (Output.priority? target)) :
      priority.node = target := by
    obtain ⟨output, -, same⟩ := List.mem_filterMap.mp member
    cases output <;> cases same
    rfl
  rw [prioritizedBy, priorities_conclude, List.filter_append, filter_of_owned owned,
    List.map_append, prioritizedBy]
  split <;> rfl

end

/-! ## Nodes at rest -/

/-- The node is idle at the header of its ledger, and this is whom it has asked and prioritized. -/
structure Rests (name : PeerId) (header : Header) (asked prioritized : List PeerId)
    (cluster : Cluster) : Prop where
  node : ∃ node, cluster.node? name = some node ∧ node.synchronizer.phase = .idle header ∧
    node.ledger.header = header
  requests : cluster.requestedBy name = asked
  priorities : cluster.prioritizedBy name = prioritized

section
variable {asked prioritized : List PeerId}

theorem Rests.applyInput {given : Input} (rests : Rests name header asked prioritized cluster)
    (approaches : ∀ node, cluster.node? name = some node → node.Approaches header.version)
    (brings : given.Brings header.version) (done : cluster.applyInput target given = .ok next) :
    Rests name header asked prioritized next := by
  rcases applyInput_eq_ok done with ⟨-, rfl⟩ | ⟨held, outcome, found, step, rfl⟩
  · exact rests
  obtain ⟨⟨node, at', phase, ledger⟩, requests, priorities⟩ := rests
  by_cases here : target = name
  · subst here
    cases found.symm.trans at'
    obtain ⟨same, silent, -⟩ := Node.handle_of_rest (approaches held found) phase rfl brings step
    refine ⟨⟨held, ?_, phase, ledger⟩, ?_, ?_⟩
    · rw [node?_conclude, found, Option.map_some, if_pos rfl, same, silent]
      rfl
    · rw [requestedBy_conclude, requests, silent, if_pos rfl]
      exact List.append_nil _
    · rw [prioritizedBy_conclude, priorities, silent, if_pos rfl]
      exact List.append_nil _
  · refine ⟨⟨node, ?_, phase, ledger⟩, ?_, ?_⟩
    · rw [node?_conclude, at', Option.map_some, if_neg here]
    · rw [requestedBy_conclude, requests, if_neg here, List.append_nil]
    · rw [prioritizedBy_conclude, priorities, if_neg here, List.append_nil]

theorem Rests.applyRequest (rests : Rests name header asked prioritized cluster)
    (request : Responder.Request) :
    Rests name header asked prioritized (cluster.applyRequest target request) := by
  obtain ⟨⟨node, found, phase, ledger⟩, requested, prioritized⟩ := rests
  refine ⟨?_, ?_, ?_⟩
  · rw [node?_applyRequest, found, Option.map_some]
    split
    · exact ⟨_, rfl, phase, ledger⟩
    · exact ⟨node, rfl, phase, ledger⟩
  · rw [requestedBy, requests_applyRequest]
    exact requested
  · rw [prioritizedBy, priorities_applyRequest]
    exact prioritized

end

/-! ## What is on its way -/

def Holds (top : Version) (cluster : Cluster) (name : PeerId) : Prop :=
  ∀ node, cluster.node? name = some node → node.ledger.version = top

/-- News comes from nodes that hold the version, and these are asked for it. -/
inductive Heralds (top : Version) (holders : PeerId → Prop) : Nat × Event → Prop where
  | timer {due : Nat} {name : PeerId} {given : Input} : 1_000_000_000 < due →
      Heralds top holders (due, .input name given)
  | update {due : Nat} {sender receiver : PeerId} {update : StatusUpdate} :
      holders sender → update.header.version = top →
      Heralds top holders (due, .deliver sender receiver (.statusUpdate update))
  | request {due : Nat} {sender receiver : PeerId} {request : SyncRequest} :
      holders receiver → Heralds top holders (due, .deliver sender receiver (.syncRequest request))
  | response {due : Nat} {sender receiver : PeerId} {response : SyncResponse} :
      response.extension.finish.version = top →
      Heralds top holders (due, .deliver sender receiver (.syncResponse response))
  | report {due : Nat} {name : PeerId} {header : Header} :
      holders name → header.version = top → Heralds top holders (due, .ledgerUpdate name header)

theorem Heralds.mono {holders others : PeerId → Prop} {entry : Nat × Event}
    (heralds : Heralds top holders entry) (more : ∀ name, holders name → others name) :
    Heralds top others entry := by
  cases heralds with
  | timer later => exact .timer later
  | update holds reached => exact .update (more _ holds) reached
  | request holds => exact .request (more _ holds)
  | response reached => exact .response reached
  | report holds reached => exact .report (more _ holds) reached

/-- Nothing but the version spreads. -/
structure Spreads (top : Version) (cluster : Cluster) : Prop where
  timetable : ∀ entry ∈ cluster.timetable,
    0 < entry.1 ∧ Heralds top (Holds top cluster) entry
  nodes : ∀ name node, cluster.node? name = some node → node.Approaches top

/-- The version goes on spreading: who holds it keeps it, and who rests at it is left alone. -/
structure Continues (top : Version) (cluster next : Cluster) : Prop where
  spreads : Spreads top next
  holds : ∀ name, Holds top cluster name → Holds top next name
  rests : ∀ name header asked prioritized, header.version = top →
    Rests name header asked prioritized cluster → Rests name header asked prioritized next
  plans : ∃ planned, Plans cluster next planned ∧ ∀ plan ∈ planned, 0 < plan.1

theorem Spreads.refl (spreads : Spreads top cluster) : Continues top cluster cluster :=
  ⟨spreads, fun _ holds => holds, fun _ _ _ _ _ rests => rests, [], Plans.refl cluster, nofun⟩

theorem Continues.trans (first : Continues top cluster middle)
    (second : Continues top middle next) : Continues top cluster next := by
  obtain ⟨planned, plans, positive⟩ := first.plans
  obtain ⟨more, later, further⟩ := second.plans
  refine ⟨second.spreads, fun name holds => second.holds name (first.holds name holds),
    fun name header asked prioritized reached rests => ?_, planned ++ more, plans.trans later,
    fun plan member => (List.mem_append.mp member).elim (positive plan) (further plan)⟩
  exact second.rests name header asked prioritized reached
    (first.rests name header asked prioritized reached rests)

theorem Spreads.continues {planned : List (Nat × Event)} (spreads : Spreads top cluster)
    (plans : Plans cluster next planned)
    (new : ∀ plan ∈ planned, 0 < plan.1 ∧
      Heralds top (Holds top next) (cluster.now + plan.1, plan.2))
    (nodes : ∀ name node, next.node? name = some node → node.Approaches top)
    (holds : ∀ name, Holds top cluster name → Holds top next name)
    (rests : ∀ name header asked prioritized, header.version = top →
      Rests name header asked prioritized cluster → Rests name header asked prioritized next) :
    Continues top cluster next := by
  refine ⟨⟨fun entry member => ?_, nodes⟩, holds, rests, planned, plans,
    fun plan member => (new plan member).1⟩
  rcases plans.mem_timetable.mp member with old | ⟨plan, entered, rfl⟩
  · obtain ⟨later, heralds⟩ := spreads.timetable entry old
    exact ⟨later, heralds.mono holds⟩
  · obtain ⟨positive, heralds⟩ := new plan entered
    exact ⟨Nat.lt_of_lt_of_le positive (Nat.le_add_left ..), heralds⟩

/-! ## Events -/

theorem heralds_of_answers {given : Input} {output : Output} {plan : Nat × Event} {now : Nat}
    {holders : PeerId → Prop} (answers : output.Answers given)
    (planned : output.planned? target = some plan) (running : 0 < now)
    (told : ∀ sender header, given = .advertisement sender header → holders sender) :
    0 < plan.1 ∧ Heralds top holders (now + plan.1, plan.2) := by
  cases output with
  | sendStatusRequest => exact answers.elim
  | sendSyncRequest peer request =>
    obtain ⟨header, brought⟩ := answers
    cases planned
    exact ⟨Nat.succ_pos _, .request (told peer header brought)⟩
  | schedule timeout delay =>
    cases planned
    have late : 1_000_000_000 ≤ delay := answers
    have due : 1_000_000_000 < now + delay := by omega
    exact ⟨Nat.lt_of_lt_of_le (by decide) late, .timer due⟩
  | ban | prioritize => cases planned

theorem applyInput_of_handle {given : Input} {node : Node} {outcome : Node.Outcome}
    (found : cluster.node? target = some node)
    (step : node.handle .trusting given = .ok outcome) :
    cluster.applyInput target given = .ok (cluster.conclude target outcome) := by
  rw [Cluster.applyInput, found]
  exact congrArg (Except.map (cluster.conclude target)) step

theorem Spreads.applyInput (spreads : Spreads top cluster) (target : PeerId) (given : Input)
    (running : 0 < cluster.now) (brings : given.Brings top)
    (told : ∀ sender header, given = .advertisement sender header → Holds top cluster sender) :
    ∃ next, cluster.applyInput target given = .ok next ∧ Continues top cluster next := by
  cases found : cluster.node? target with
  | none => exact ⟨cluster, by rw [Cluster.applyInput, found], spreads.refl⟩
  | some held =>
    have approaches := spreads.nodes target held found
    obtain ⟨outcome, step⟩ := approaches.exists_handle .trusting given brings
    obtain ⟨after, answers, moved⟩ := approaches.handle brings step
    -- The ledger of the target is as it was, or it has got to the version.
    have holds (name : PeerId) (before : Holds top cluster name) :
        Holds top (cluster.conclude target outcome) name := by
      intro later reached
      rw [node?_conclude, Option.map_eq_some_iff] at reached
      obtain ⟨node, here, rfl⟩ := reached
      split
      next same =>
        subst same
        rcases moved with ⟨kept, -⟩ | ⟨reached, -⟩
        · exact (congrArg Ledger.version kept).trans (before held found)
        · exact reached
      next other => exact before node here
    have done := applyInput_of_handle found step
    refine ⟨_, done, spreads.continues plans_conclude (fun plan member => ?_)
      (fun name later reached => ?_) holds fun name header asked prioritized reached rests => ?_⟩
    · rcases List.mem_append.mp member with sent | reported
      · obtain ⟨output, asked, planned⟩ := List.mem_filterMap.mp sent
        exact heralds_of_answers (answers output asked) planned running
          fun sender header same => holds sender (told sender header same)
      · obtain ⟨header, committed, rfl⟩ := List.mem_map.mp reported
        rcases moved with ⟨-, none⟩ | ⟨ledger, versions⟩
        · rw [none] at committed
          cases committed
        · refine ⟨Nat.succ_pos _, .report (fun later reached => ?_) (versions header committed)⟩
          rw [node?_conclude, found, Option.map_some, if_pos rfl] at reached
          cases reached
          exact ledger
    · rw [node?_conclude, Option.map_eq_some_iff] at reached
      obtain ⟨node, here, rfl⟩ := reached
      split
      next same => exact ⟨after.synchronizer, after.reported⟩
      next other => exact spreads.nodes name node here
    · subst reached
      exact rests.applyInput (fun node here => spreads.nodes name node here) brings done

theorem heralds_of_mail {malicious : PeerSet} {letter : Letter} {holders : PeerId → Prop}
    {due : Nat} (holds : holders target)
    (bears : (∃ response, letter.message = .syncResponse response ∧
        response.extension.finish.version = top) ∨
      ∃ update, letter.message = .statusUpdate update ∧ update.header.version = top) :
    Heralds top holders (due, mail malicious target letter) := by
  obtain ⟨peer, message⟩ := letter
  unfold mail
  rcases bears with ⟨response, rfl, reached⟩ | ⟨update, rfl, reached⟩
  · split
    · exact .response reached
    · exact .response reached
  · split
    · exact .update holds reached
    · exact .update holds reached

theorem Spreads.applyRequest (spreads : Spreads top cluster) (request : Responder.Request)
    (brings : request.Brings top) (holder : Holds top cluster target) :
    Continues top cluster (cluster.applyRequest target request) := by
  have holds (name : PeerId) (before : Holds top cluster name) :
      Holds top (cluster.applyRequest target request) name := by
    intro later reached
    rw [node?_applyRequest, Option.map_eq_some_iff] at reached
    obtain ⟨node, here, rfl⟩ := reached
    split
    · exact before node here
    · exact before node here
  have nodes (name : PeerId) (later : Node)
      (reached : (cluster.applyRequest target request).node? name = some later) :
      later.Approaches top := by
    rw [node?_applyRequest, Option.map_eq_some_iff] at reached
    obtain ⟨node, here, rfl⟩ := reached
    have approaches := spreads.nodes name node here
    split
    · exact ⟨approaches.synchronizer, approaches.reported⟩
    · exact approaches
  have rests (name : PeerId) (header : Header) (asked prioritized : List PeerId)
      (_ : header.version = top) (rests : Rests name header asked prioritized cluster) :
      Rests name header asked prioritized (cluster.applyRequest target request) :=
    rests.applyRequest request
  cases found : cluster.node? target with
  | none => exact (applyRequest_of_missing found).symm ▸ spreads.refl
  | some node =>
    refine spreads.continues (plans_serve found request) (fun plan member => ?_) nodes holds rests
    obtain ⟨letter, sent, rfl⟩ := List.mem_map.mp member
    have bears := Node.letters_of_serve brings (holder node found) sent
    exact ⟨Nat.succ_pos _, heralds_of_mail (holds target holder) bears⟩

theorem Spreads.process {event : Event} {due : Nat} (spreads : Spreads top cluster)
    (running : 0 < cluster.now) (soon : due ≤ 1_000_000_000)
    (heralds : Heralds top (Holds top cluster) (due, event)) :
    ∃ next, cluster.process event = .ok next ∧ Continues top cluster next := by
  cases heralds with
  | timer later => exact absurd soon (Nat.not_le.mpr later)
  | update holds reached =>
    refine spreads.applyInput _ (.advertisement _ _) running reached ?_
    rintro _ _ ⟨⟩
    exact holds
  | response reached =>
    exact spreads.applyInput _ (.syncResponse _ _) running reached nofun
  | @request _ sender receiver request holds =>
    refine ⟨_, rfl, ?_⟩
    split
    · exact spreads.refl
    · exact spreads.applyRequest (.sync sender request) trivial holds
  | @report _ name header holds reached =>
    -- The synchronizer hears of it first, and the responder tells others in the phase after that.
    obtain ⟨middle, heard, first⟩ :=
      spreads.applyInput name (.ledgerUpdate header) running reached nofun
    simp only [Cluster.process, heard]
    refine ⟨_, rfl, ?_⟩
    split
    next => exact first
    next node found =>
      exact first.trans (first.spreads.applyRequest _ reached (first.holds name holds))

theorem Spreads.pop {first : Scheduled} {rest : List Scheduled} (spreads : Spreads top cluster)
    (agenda : cluster.agenda = first :: rest) : Spreads top (cluster.pop first rest) := by
  refine ⟨fun entry member => ?_, spreads.nodes⟩
  exact spreads.timetable entry (timetable_of_agenda agenda ▸ List.mem_cons_of_mem _ member)

/-- Whatever comes up within a second is processed, and the version goes on spreading. -/
theorem Spreads.step {first : Scheduled} {rest : List Scheduled} (spreads : Spreads top cluster)
    (agenda : cluster.agenda = first :: rest) (soon : first.due ≤ 1_000_000_000) :
    ∃ next, (cluster.pop first rest).process first.event = .ok next ∧
      Continues top (cluster.pop first rest) next := by
  obtain ⟨running, heralds⟩ := spreads.timetable (first.due, first.event)
    (timetable_of_agenda agenda ▸ List.mem_cons_self)
  exact (spreads.pop agenda).process running soon heralds

end Cluster

end Catchup
