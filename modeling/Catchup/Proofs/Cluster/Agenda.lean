import Catchup.Proofs.Cluster.Clock
import Catchup.Proofs.Synchronizer.Delays

/-! The agenda of a cluster, and the numbers of its entries.

Entries come up by the time they are due and then by their numbers, which are given out once each.
With usable settings whatever an event leads to is due later than the event. Every request and every
status check puts two entries at least on the agenda, so the counters of the nodes stay well behind
its numbers. -/

set_option autoImplicit false

namespace Catchup

theorem PeerSet.length_place_le (peer : PeerId) (peers : List PeerId) :
    (PeerSet.place peer peers).length ≤ peers.length + 1 := by
  induction peers with
  | nil => exact Nat.le_refl 1
  | cons first rest ih =>
    simp only [PeerSet.place]
    split
    · exact Nat.le_refl _
    · split
      · exact Nat.le_succ _
      · exact Nat.succ_le_succ ih

theorem PeerSet.length_ofList_le (peers : List PeerId) :
    (PeerSet.ofList peers).toList.length ≤ peers.length := by
  have inserted (set : PeerSet) :
      (peers.foldl PeerSet.insert set).toList.length ≤ set.toList.length + peers.length := by
    induction peers generalizing set with
    | nil => exact Nat.le_refl _
    | cons first rest ih =>
      have placed : (set.insert first).toList.length ≤ set.toList.length + 1 :=
        PeerSet.length_place_le first set.toList
      have later := ih (set.insert first)
      simp only [List.foldl_cons, List.length_cons]
      omega
  have whole := inserted .empty
  rwa [PeerSet.empty, List.length_nil, Nat.zero_add] at whole

/-- Whether an entry comes up before another. -/
def Scheduled.Before (first second : Scheduled) : Prop :=
  first.due < second.due ∨ first.due = second.due ∧ first.number < second.number

theorem Scheduled.Before.le {first second : Scheduled} (before : first.Before second) :
    first.due ≤ second.due := by
  rcases before with earlier | ⟨same, -⟩
  · exact Nat.le_of_lt earlier
  · exact Nat.le_of_eq same

namespace Cluster

variable {cluster middle next : Cluster}

/-! ## Filing -/

theorem place_perm (entry : Scheduled) (agenda : List Scheduled) :
    (place entry agenda).Perm (entry :: agenda) := by
  apply List.perm_middle.trans
  rw [List.takeWhile_append_dropWhile]

theorem sorted_place {entry : Scheduled} {agenda : List Scheduled}
    (sorted : agenda.Pairwise Scheduled.Before)
    (largest : ∀ other ∈ agenda, other.number < entry.number) :
    (place entry agenda).Pairwise Scheduled.Before := by
  induction agenda with
  | nil => exact List.pairwise_singleton ..
  | cons first rest ih =>
    obtain ⟨least, ordered⟩ := List.pairwise_cons.mp sorted
    obtain ⟨smaller, largest⟩ := List.forall_mem_cons.mp largest
    by_cases early : first.due ≤ entry.due
    · have placed : place entry (first :: rest) = first :: place entry rest := by
        simp [place, early]
      rw [placed, List.pairwise_cons]
      refine ⟨fun other member => ?_, ih ordered largest⟩
      rcases mem_place.mp member with rfl | member
      · rcases Nat.lt_or_eq_of_le early with before | same
        · exact .inl before
        · exact .inr ⟨same, smaller⟩
      · exact least other member
    · have placed : place entry (first :: rest) = entry :: first :: rest := by
        simp [place, early]
      rw [placed, List.pairwise_cons]
      refine ⟨fun other member => .inl ?_, sorted⟩
      have late := Nat.lt_of_not_le early
      rcases List.mem_cons.mp member with rfl | member
      · exact late
      · exact Nat.lt_of_lt_of_le late (least other member).le

/-- The agenda is in order and nothing on it is past; its entries have numbers of their own, out of
those that have been given. -/
structure Filed (cluster : Cluster) : Prop where
  sorted : cluster.agenda.Pairwise Scheduled.Before
  distinct : (cluster.agenda.map (·.number)).Nodup
  numbered : ∀ entry ∈ cluster.agenda, entry.number ≤ cluster.scheduled
  coming : ∀ entry ∈ cluster.agenda, cluster.now ≤ entry.due

theorem Filed.schedule (filed : Filed cluster) (delay : Nat) (event : Event) :
    Filed (cluster.schedule delay event) := by
  have smaller (entry : Scheduled) (member : entry ∈ cluster.agenda) :
      entry.number < cluster.scheduled + 1 := Nat.lt_succ_of_le (filed.numbered entry member)
  constructor
  · exact sorted_place filed.sorted smaller
  · apply (((place_perm ..).map _).nodup_iff).mpr
    refine List.nodup_cons.mpr ⟨fun member => ?_, filed.distinct⟩
    obtain ⟨entry, listed, same⟩ := List.mem_map.mp member
    exact Nat.ne_of_lt (smaller entry listed) same
  · intro entry member
    rcases mem_agenda_schedule.mp member with rfl | earlier
    · exact Nat.le_refl _
    · exact Nat.le_of_lt (smaller entry earlier)
  · intro entry member
    rcases mem_agenda_schedule.mp member with rfl | earlier
    · exact Nat.le_add_right ..
    · exact filed.coming entry earlier

theorem Filed.pop {first : Scheduled} {rest : List Scheduled} (filed : Filed cluster)
    (agenda : cluster.agenda = first :: rest) : Filed (cluster.pop first rest) := by
  obtain ⟨sorted, distinct, numbered, -⟩ := filed
  rw [agenda] at sorted distinct numbered
  obtain ⟨least, sorted⟩ := List.pairwise_cons.mp sorted
  constructor
  · exact sorted
  · exact (List.nodup_cons.mp distinct).2
  · exact fun entry member => numbered entry (List.mem_cons_of_mem first member)
  · exact fun entry member => (least entry member).le

theorem Filed.ordered (filed : Filed cluster) : Ordered cluster := by
  constructor
  · exact List.pairwise_map.mpr (filed.sorted.imp Scheduled.Before.le)
  · intro entry member
    obtain ⟨listed, there, rfl⟩ := List.mem_map.mp member
    exact filed.coming listed there

theorem Filed.least (filed : Filed cluster) {first : Nat} (begins : cluster.nextDue? = some first) :
    ∀ entry ∈ cluster.agenda, first ≤ entry.due :=
  fun _ member => filed.ordered.least begins _ (List.mem_map_of_mem member)

theorem Filed.late (filed : Filed cluster) {time : Nat}
    (later : ∀ due, cluster.nextDue? = some due → time < due) :
    ∀ entry ∈ cluster.agenda, time < entry.due :=
  fun _ member => filed.ordered.late later _ (List.mem_map_of_mem member)

/-- Nothing has happened to the agenda except that these entries were filed: all of them due later
than now, and under the next numbers. -/
structure Files (cluster next : Cluster) (entries : List Scheduled) : Prop where
  now : next.now = cluster.now
  agenda : next.agenda.Perm (cluster.agenda ++ entries)
  numbers : entries.map (·.number) = List.range' (cluster.scheduled + 1) entries.length
  scheduled : next.scheduled = cluster.scheduled + entries.length
  late : ∀ entry ∈ entries, cluster.now < entry.due

theorem Files.refl (cluster : Cluster) : Files cluster cluster [] := by
  constructor
  · rfl
  · rw [List.append_nil]
  · rfl
  · rfl
  · exact nofun

theorem Files.schedule {entries : List Scheduled} (files : Files cluster middle entries)
    {delay : Nat} (later : 0 < delay) (event : Event) :
    Files cluster (middle.schedule delay event)
      (entries ++ [⟨middle.now + delay, middle.scheduled + 1, event⟩]) := by
  constructor
  · exact files.now
  · have placed := (place_perm ⟨middle.now + delay, middle.scheduled + 1, event⟩
      middle.agenda).trans (files.agenda.cons _)
    rw [← List.append_assoc]
    exact placed.trans (List.perm_append_singleton _ _).symm
  · rw [List.map_append, files.numbers, List.length_append, List.length_singleton,
      List.range'_1_concat, files.scheduled, List.map_singleton, Nat.add_right_comm]
  · rw [List.length_append, List.length_singleton, ← Nat.add_assoc, ← files.scheduled]
    rfl
  · intro entry member
    rcases List.mem_append.mp member with member | member
    · exact files.late entry member
    · rw [List.mem_singleton.mp member, ← files.now]
      exact Nat.lt_add_of_pos_right later

/-! ## Events -/

/-- Kept by whatever schedules events for later and changes nothing else about the agenda. -/
structure Kept (holds : Cluster → Prop) : Prop where
  schedule {cluster : Cluster} {delay : Nat} (event : Event) : holds cluster → 0 < delay →
    holds (cluster.schedule delay event)
  aside {cluster next : Cluster} : holds cluster → next.agenda = cluster.agenda →
    next.scheduled = cluster.scheduled → next.now = cluster.now → holds next

section
variable {holds : Cluster → Prop} {name : PeerId}

theorem Kept.execute (kept : Kept holds) (before : holds cluster) {output : Output}
    (later : 0 < output.delay) : holds (execute name cluster output) := by
  cases output with
  | sendStatusRequest peer => exact kept.schedule _ before later
  | sendSyncRequest peer request =>
    apply kept.schedule _ _ later
    exact kept.aside before rfl rfl rfl
  | schedule timeout delay => exact kept.schedule _ before later
  | ban peer reason seconds =>
    simp only [Cluster.execute, ban]
    split <;> exact kept.aside before rfl rfl rfl
  | prioritize peer => exact kept.aside before rfl rfl rfl

theorem holds_foldl {α : Type} (holds : Cluster → Prop) {carry : Cluster → α → Cluster}
    {items : List α}
    (each : ∀ cluster, ∀ item ∈ items, holds cluster → holds (carry cluster item))
    (before : holds cluster) : holds (items.foldl carry cluster) := by
  induction items generalizing cluster with
  | nil => exact before
  | cons item rest ih =>
    apply ih
    · exact fun cluster other member => each cluster other (List.mem_cons_of_mem item member)
    · exact each cluster item List.mem_cons_self before

theorem Kept.conclude (kept : Kept holds) (before : holds cluster) {outcome : Node.Outcome}
    (later : ∀ output ∈ outcome.outputs, 0 < output.delay) :
    holds (cluster.conclude name outcome) := by
  apply holds_foldl holds
  · intro cluster header member before
    exact kept.schedule _ before (by decide)
  · apply holds_foldl holds
    · intro cluster output member before
      exact kept.execute before (later output member)
    · exact kept.aside before rfl rfl rfl

theorem Kept.applyRequest (kept : Kept holds) (before : holds cluster)
    (request : Responder.Request) : holds (cluster.applyRequest name request) := by
  rcases applyRequest_cases cluster name request with same | ⟨node, found, same⟩
  · rw [same]
    exact before
  · rw [same]
    apply holds_foldl holds
    · intro cluster letter member before
      exact kept.schedule _ before (by decide)
    · exact kept.aside before rfl rfl rfl

end

end Cluster

namespace Synchronizer

variable {σ : Type} {judge : Judge σ} {directory : Directory} {store after : σ}
  {before : Synchronizer} {input : Input} {bare : Reaction}

/-- What a synchronizer asks for is due later, if its settings are usable. -/
theorem Transition.later (transition : Transition judge directory store before input bare after)
    (usable : before.settings.Usable) : ∀ output ∈ bare.outputs, 0 < output.delay := by
  have latency : 0 < Cluster.latency := by decide
  intro output member
  cases output with
  | schedule timeout delay => exact transition.scheduled_for member ▸ usable.wait_pos timeout
  | sendStatusRequest | sendSyncRequest | ban | prioritize => exact latency

/-- A request goes out with its timer, and a status check with its window. -/
theorem Transition.twice (transition : Transition judge directory store before input bare after)
    (name : PeerId) :
    2 * bare.outputs.countP Output.isRequest ≤
        (bare.outputs.filterMap (Output.event? name)).length ∧
      2 * bare.outputs.countP Output.opensWindow ≤
        (bare.outputs.filterMap (Output.event? name)).length := by
  cases transition with
  | checkStarted phase window somebody number =>
    have asked := List.length_pos_of_ne_nil somebody
    simp [Function.comp_def, Output.isRequest, Output.opensWindow, Output.event?]
    omega
  | resumed resumes pursues =>
    cases pursues with
    | reached | waiting | exhausted => exact ⟨Nat.le_refl 0, Nat.le_refl 0⟩
    | asked => exact ⟨Nat.le_refl 2, Nat.zero_le _⟩
  | accepted | malicious => exact ⟨Nat.zero_le _, Nat.zero_le _⟩
  | ignored | unasked | answered | checkClosed | unsolicited | adopted | satisfied =>
    exact ⟨Nat.le_refl 0, Nat.le_refl 0⟩

end Synchronizer

/-! ## Nodes -/

/-- The counters of a node have used up no more than the numbers on the agenda allow. -/
structure Node.Fits (settings : Settings) (places scheduled : Nat) (node : Node) : Prop where
  settings : node.synchronizer.settings = settings
  requests : 2 * node.synchronizer.nextRequest.number.toNat ≤ scheduled + 2
  checks : 2 * node.synchronizer.lastCheck.toNat ≤ scheduled
  directory : node.directory.toList.length ≤ places

namespace Node

variable {settings : Settings} {places scheduled : Nat} {node : Node}

theorem Fits.mono (fits : node.Fits settings places scheduled) {more : Nat}
    (grown : scheduled ≤ more) : node.Fits settings places more := by
  obtain ⟨same, requests, checks, directory⟩ := fits
  exact ⟨same, by omega, by omega, directory⟩

theorem Fits.without (fits : node.Fits settings places scheduled) (bans : List Ban) :
    (node.without bans).Fits settings places scheduled := by
  have fewer (directory : PeerSet) : (bans.foldl (fun directory ban =>
      directory.erase ban.peer) directory).toList.length ≤ directory.toList.length := by
    induction bans generalizing directory with
    | nil => exact Nat.le_refl _
    | cons ban rest ih =>
      exact Nat.le_trans (ih _) (List.length_filter_le ..)
  exact ⟨fits.settings, fits.requests, fits.checks,
    Nat.le_trans (fewer node.directory) fits.directory⟩

theorem Fits.handle (fits : node.Fits settings places scheduled) {proofs : Proofs} {input : Input}
    {outcome : Outcome} (done : node.handle proofs input = .ok outcome) (name : PeerId) :
    outcome.node.Fits settings places
      (scheduled + (outcome.outputs.filterMap (Output.event? name)).length) := by
  obtain ⟨bare, ledger, transition, same, outputs, -⟩ := handle_eq_ok done
  obtain ⟨requests, checks⟩ := transition.twice name
  have nextRequest := transition.nextRequest
  have lastCheck := transition.lastCheck
  obtain ⟨settled, before, earlier, directory⟩ := fits
  rw [same, outputs]
  constructor
  · exact transition.settings.trans settled
  · simp only
    omega
  · simp only
    omega
  · exact directory

end Node

namespace Cluster

def Fits (settings : Settings) (places : Nat) (cluster : Cluster) : Prop :=
  ∀ name node, cluster.node? name = some node → node.Fits settings places cluster.scheduled

section
variable {cluster next : Cluster} {settings : Settings} {places : Nat} {name : PeerId}

theorem kept_scheduled (bound : Nat) : Kept fun cluster => bound ≤ cluster.scheduled := by
  constructor
  · intro cluster delay event before later
    exact Nat.le_succ_of_le before
  · intro cluster next before agenda scheduled now
    rwa [scheduled]

theorem scheduled_execute (cluster : Cluster) (output : Output) :
    (execute name cluster output).scheduled =
      cluster.scheduled + (output.event? name).toList.length := by
  cases output with
  | ban peer reason seconds =>
    simp only [execute, ban]
    split <;> rfl
  | sendStatusRequest | sendSyncRequest | schedule | prioritize => rfl

theorem scheduled_foldl_execute (outputs : List Output) (cluster : Cluster) :
    (outputs.foldl (execute name) cluster).scheduled =
      cluster.scheduled + (outputs.filterMap (Output.event? name)).length := by
  induction outputs generalizing cluster with
  | nil => rfl
  | cons output rest ih =>
    rw [List.foldl_cons, ih, scheduled_execute]
    cases caused : output.event? name with
    | none => simp [caused]
    | some event =>
      simp [caused]
      omega

theorem le_scheduled_conclude (cluster : Cluster) (outcome : Node.Outcome) :
    cluster.scheduled + (outcome.outputs.filterMap (Output.event? name)).length ≤
      (cluster.conclude name outcome).scheduled := by
  apply holds_foldl fun later => _ ≤ later.scheduled
  · intro later header member before
    exact Nat.le_succ_of_le before
  · exact Nat.le_of_eq (scheduled_foldl_execute outcome.outputs (cluster.setNode name _)).symm

theorem Fits.applyInput {input : Input} (fits : cluster.Fits settings places)
    (done : cluster.applyInput name input = .ok next) : next.Fits settings places := by
  rcases applyInput_eq_ok done with ⟨-, rfl⟩ | ⟨node, outcome, found, step, rfl⟩
  · exact fits
  have grown : _ ≤ (cluster.conclude name outcome).scheduled :=
    le_scheduled_conclude cluster outcome
  intro other held there
  rw [node?_conclude] at there
  obtain ⟨old, before, rfl⟩ := Option.map_eq_some_iff.mp there
  by_cases same : name = other
  · rw [if_pos same]
    exact (((fits name node found).handle step name).mono grown).without _
  · rw [if_neg same]
    exact (fits other old before).mono (Nat.le_trans (Nat.le_add_right ..) grown)

theorem Fits.applyRequest (fits : cluster.Fits settings places) (request : Responder.Request) :
    (cluster.applyRequest name request).Fits settings places := by
  have grown : cluster.scheduled ≤ (cluster.applyRequest name request).scheduled :=
    (kept_scheduled _).applyRequest (Nat.le_refl _) request
  intro other held there
  rw [node?_applyRequest] at there
  obtain ⟨old, before, rfl⟩ := Option.map_eq_some_iff.mp there
  have kept := (fits other old before).mono grown
  by_cases same : name = other
  · rw [if_pos same]
    exact ⟨kept.settings, kept.requests, kept.checks, kept.directory⟩
  · rw [if_neg same]
    exact kept

theorem Fits.processes {event : Event} (fits : cluster.Fits settings places)
    (processes : Processes cluster event next) : next.Fits settings places := by
  cases processes with
  | lost errand => exact fits
  | served errand => exact fits.applyRequest _
  | taken errand done => exact fits.applyInput done
  | given done => exact fits.applyInput done
  | reported phase now heard => exact (fits.applyInput heard).applyRequest _

theorem fits_start (settings : Settings) (versions : List Nat) :
    (start settings versions).Fits settings versions.length := by
  intro name node found
  obtain ⟨⟨version, position⟩, -, rfl⟩ := List.mem_map.mp (List.mem_of_getElem? found)
  constructor
  · rfl
  · exact Nat.le_refl 2
  · exact Nat.le_refl 0
  · apply Nat.le_trans (PeerSet.length_ofList_le _)
    apply Nat.le_trans (List.length_filter_le ..)
    rw [List.length_map, List.length_range]

/-! ## Faults -/

theorem applyInput_eq_error {input : Input} {fault : Fault}
    (failed : cluster.applyInput name input = .error fault) :
    ∃ node, cluster.node? name = some node ∧ node.handle .trusting input = .error fault := by
  unfold applyInput at failed
  split at failed
  next missing => cases failed
  next node found =>
    cases handled : node.handle .trusting input with
    | error cause =>
      rw [handled] at failed
      cases failed
      exact ⟨node, found, handled⟩
    | ok outcome =>
      rw [handled] at failed
      cases failed

/-- Only an input to a node can break an event off. -/
theorem process_eq_error {event : Event} {fault : Fault}
    (failed : cluster.process event = .error fault) :
    ∃ name input, cluster.applyInput name input = .error fault := by
  cases event with
  | deliver sender receiver message =>
    simp only [process, deliver] at failed
    split at failed
    next => cases failed
    next => cases failed
    next given errand => exact ⟨receiver, given, failed⟩
  | input name given => exact ⟨name, given, failed⟩
  | ledgerUpdate name header =>
    cases heard : cluster.applyInput name (.ledgerUpdate header) with
    | error cause =>
      simp only [process, heard, bind, Except.bind] at failed
      cases failed
      exact ⟨name, _, heard⟩
    | ok middle =>
      simp only [process, heard, bind, Except.bind] at failed
      cases failed

/-- A node of a moderate number of peers overflows only after the numbers of the agenda have been
used up. -/
theorem Fits.overflow {event : Event} {fault : Fault} (fits : cluster.Fits settings places)
    (few : places < UInt64.size / 2) (failed : cluster.process event = .error fault) :
    fault = .additionOverflow ∧ UInt64.size ≤ cluster.scheduled := by
  obtain ⟨name, input, failed⟩ := process_eq_error failed
  obtain ⟨node, found, failed⟩ := applyInput_eq_error failed
  obtain ⟨-, requests, checks, directory⟩ := fits name node found
  have broken : node.synchronizer.handle (Verification.judge .trusting Ledger.committer)
      node.directory node.ledger input = .error fault := by
    cases handled : node.synchronizer.handle (Verification.judge .trusting Ledger.committer)
        node.directory node.ledger input with
    | error cause =>
      rw [Node.handle, handled] at failed
      cases failed
      rfl
    | ok reacted =>
      rw [Node.handle, handled] at failed
      cases failed
  rcases Synchronizer.handle_cases (Verification.judge .trusting Ledger.committer)
      node.directory node.ledger node.synchronizer input with ⟨_, _, -, done⟩ | ⟨_, overflows, done⟩
  · cases done.symm.trans broken
  · cases done.symm.trans broken
    obtain ⟨same, cause⟩ := overflows.cause
    refine ⟨same, ?_⟩
    rw [PeerSet.peers_directory] at cause
    simp only [UInt64.size] at cause few ⊢
    rcases cause with large | ⟨-, full⟩ | ⟨-, full⟩ <;> omega

end

/-! ## Clusters that can come about -/

section
variable {cluster next : Cluster} {settings : Settings} {versions : List UInt64}
  {allowed : Input → Prop}

theorem Reached.fits (reached : Reached settings versions allowed cluster) :
    cluster.Fits settings versions.length := by
  induction reached with
  | start =>
    have fits := fits_start settings (versions.map UInt64.toNat)
    rwa [List.length_map] at fits
  | corrupt name _ ih => exact ih
  | silence name _ ih => exact ih
  | elapse _ later ih => exact ih
  | @commitLocal cluster next name count header _ done ih =>
    obtain ⟨node, ledger, found, -, -, rfl⟩ := commitLocal_eq_ok done
    intro other held there
    have set : (cluster.setNode name { node with ledger }).node? other = some held := there
    rw [node?_setNode] at set
    obtain ⟨old, before, rfl⟩ := Option.map_eq_some_iff.mp set
    by_cases same : name = other
    · rw [if_pos same]
      obtain ⟨settled, requests, checks, directory⟩ :=
        (ih name node found).mono (Nat.le_succ cluster.scheduled)
      exact ⟨settled, requests, checks, directory⟩
    · rw [if_neg same]
      exact (ih other old before).mono (Nat.le_succ _)
  | input name given _ fair ih =>
    intro other node found
    exact (ih other node found).mono (Nat.le_succ _)
  | step _ done ih =>
    rcases step_eq_ok done with ⟨-, rfl⟩ | ⟨first, rest, agenda, done⟩
    · exact ih
    · apply Fits.processes _ (processes_of_process done)
      exact ih

/-- Whatever is kept while events are scheduled for later is kept by an event. -/
theorem Kept.process {holds : Cluster → Prop} {places : Nat} {event : Event} (kept : Kept holds)
    (before : holds cluster) (fits : cluster.Fits settings places) (usable : settings.Usable)
    (done : cluster.process event = .ok next) : holds next := by
  have taken {name : PeerId} {input : Input} {next : Cluster}
      (done : cluster.applyInput name input = .ok next) : holds next := by
    rcases applyInput_eq_ok done with ⟨-, rfl⟩ | ⟨node, outcome, found, step, rfl⟩
    · exact before
    · apply kept.conclude before
      obtain ⟨bare, ledger, transition, -, outputs, -⟩ := Node.handle_eq_ok step
      rw [outputs]
      exact transition.later ((fits name node found).settings ▸ usable)
  cases processes_of_process done with
  | lost errand => exact before
  | served errand => exact kept.applyRequest before _
  | taken errand done => exact taken done
  | given done => exact taken done
  | reported phase now heard => exact kept.applyRequest (taken heard) _

theorem kept_filed : Kept Filed := by
  constructor
  · intro cluster delay event filed later
    exact filed.schedule delay event
  · intro cluster next filed agenda scheduled now
    obtain ⟨sorted, distinct, numbered, coming⟩ := filed
    constructor
    · rwa [agenda]
    · rwa [agenda]
    · rwa [agenda, scheduled]
    · rwa [agenda, now]

theorem Reached.filed (reached : Reached settings versions allowed cluster)
    (usable : settings.Usable) : Filed cluster := by
  induction reached with
  | start => exact ⟨.nil, .nil, nofun, nofun⟩
  | corrupt name _ ih => exact kept_filed.aside ih rfl rfl rfl
  | silence name _ ih => exact kept_filed.aside ih rfl rfl rfl
  | commitLocal _ done ih =>
    obtain ⟨node, ledger, -, -, -, rfl⟩ := commitLocal_eq_ok done
    apply Filed.schedule
    exact kept_filed.aside ih rfl rfl rfl
  | input name given _ fair ih => exact ih.schedule 0 _
  | @step cluster next reached done ih =>
    rcases step_eq_ok done with ⟨-, rfl⟩ | ⟨first, rest, agenda, done⟩
    · exact ih
    · exact kept_filed.process (ih.pop agenda) reached.fits usable done
  | elapse _ later ih =>
    exact ⟨ih.sorted, ih.distinct, ih.numbered, fun entry member =>
      Nat.le_of_lt (ih.late later entry member)⟩

/-- An event files its consequences. -/
theorem Reached.files (reached : Reached settings versions allowed cluster)
    (usable : settings.Usable) {first : Scheduled} {rest : List Scheduled}
    (agenda : cluster.agenda = first :: rest) (done : cluster.step = .ok next) :
    ∃ entries, Files (cluster.pop first rest) next entries := by
  have kept : Kept fun next => ∃ entries, Files (cluster.pop first rest) next entries := by
    constructor
    · rintro middle delay event ⟨entries, files⟩ later
      exact ⟨_, files.schedule later event⟩
    · rintro middle next ⟨entries, files⟩ agenda scheduled now
      obtain ⟨clock, filed, numbers, counted, late⟩ := files
      exact ⟨entries, now.trans clock, agenda ▸ filed, numbers, scheduled.trans counted, late⟩
  rw [Cluster.step, agenda] at done
  exact kept.process ⟨[], Files.refl _⟩ reached.fits usable done

end

end Cluster

end Catchup
