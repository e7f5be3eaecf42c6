import Catchup.Proofs.Cluster.Honesty
import Catchup.Proofs.Head

/-! Where the nodes of a cluster take their own heads to be.

A node keeps its head three times: in its ledger, in its synchronizer and in its responder. The
ledger moves first and reports where to; the reports may arrive late and in any order. What carries
the proofs is that of all the headers that the synchronizer holds or will hear of, none is ahead of
the ledger, and one is where the ledger is. -/

set_option autoImplicit false

namespace Catchup

/-! ## Nodes -/

/-- What a node takes its head to be, and what its ledger has still to report. -/
structure Heads where
  ledger : Header
  unreported : List Header
  synchronizer : Header
  responder : Header

def Node.heads (node : Node) : Heads where
  ledger := node.ledger.header
  unreported := node.ledger.unreported
  synchronizer := node.synchronizer.head
  responder := node.responder.head

/-- An input moves the head of the synchronizer, or it brings a commit, which is to be reported. -/
theorem Node.heads_of_handle {node : Node} {input : Input} {outcome : Outcome}
    (done : node.handle .trusting input = .ok outcome) (reported : node.heads.unreported = [])
    (bridges : ∀ response, input.response? = some response → response.2.Bridges) :
    (outcome.committed = [] ∧ outcome.node.heads =
        { node.heads with synchronizer := input.adopted node.heads.synchronizer }) ∨
    input.response? ≠ none ∧ ∃ header, node.heads.ledger.version < header.version ∧
      outcome.committed = [header] ∧ outcome.node.heads = { node.heads with ledger := header } := by
  obtain ⟨bare, ledger, transition, after, -, committed⟩ := Node.handle_eq_ok done
  have head := transition.head
  have unreported : node.ledger.unreported = [] := reported
  have kept (same : ledger = node.ledger) : outcome.committed = [] ∧ outcome.node.heads =
      { node.heads with synchronizer := input.adopted node.heads.synchronizer } := by
    subst same
    rw [committed, after]
    refine ⟨unreported, ?_⟩
    simp only [Node.heads, Ledger.takeUnreported, head, unreported]
  rcases transition.judged ⟨0⟩ with ⟨same, -⟩ | ⟨pursuit, peer, extension, verdict, rfl, judged, -⟩
  · exact .inl (kept same)
  · rcases (Verification.decides_of_judge judged).ledger with same | ⟨-, stored⟩
    · exact .inl (kept same)
    · have bridged := bridges (peer, extension) rfl
      have further := Ledger.version_lt_of_commit bridged.nonempty bridged.count stored
      obtain ⟨-, -, -, rfl⟩ := Ledger.commit_eq_ok_iff.mp stored
      refine .inr ⟨nofun, extension.finish, further, ?_, ?_⟩
      · rw [committed]
        simp only [Ledger.takeUnreported, unreported, List.nil_append]
      · rw [after]
        simp only [Node.heads, Ledger.takeUnreported, head, unreported]
        rfl

/-! ## Reports -/

/-- The reports are on their way. The ledger is where the highest of the headers is that the
synchronizer holds or will hear of, and the responder holds what the synchronizer does. -/
structure Tracked (exact : Prop) (reports : List Header) (heads : Heads) : Prop where
  unreported : heads.unreported = []
  responder : heads.responder = heads.synchronizer
  behind : ∀ header ∈ heads.synchronizer :: reports, header.Trails exact heads.ledger
  current : ∃ header ∈ heads.synchronizer :: reports, header.Matches exact heads.ledger

section
variable {exact : Prop} {reports later : List Header} {heads : Heads} {header : Header}

theorem Tracked.congr (tracked : Tracked exact reports heads)
    (same : ∀ header, header ∈ later ↔ header ∈ reports) : Tracked exact later heads := by
  refine ⟨tracked.unreported, tracked.responder, fun header member => ?_, ?_⟩
  · exact tracked.behind header (by simpa [same] using member)
  · obtain ⟨header, member, matching⟩ := tracked.current
    exact ⟨header, by simpa [same] using member, matching⟩

/-- The ledger may move on, as long as it reports where to. -/
theorem Tracked.advance (tracked : Tracked exact reports heads)
    (trails : heads.ledger.Trails exact header)
    (reported : ∀ other, other ∈ later ↔ other = header ∨ other ∈ reports) :
    Tracked exact later { heads with ledger := header } := by
  refine ⟨tracked.unreported, tracked.responder, fun other member => ?_, header, ?_, .refl header⟩
  · rcases List.mem_cons.mp member with rfl | member
    · exact (tracked.behind _ List.mem_cons_self).trans trails
    · rcases (reported other).mp member with rfl | earlier
      · exact .inr (.refl other)
      · exact (tracked.behind other (List.mem_cons_of_mem _ earlier)).trans trails
  · exact List.mem_cons_of_mem _ ((reported header).mpr (.inl rfl))

/-- Both sides of the node hear of a report. -/
theorem Tracked.hear (tracked : Tracked exact (header :: reports) heads) :
    Tracked exact reports { heads with
      synchronizer := heads.synchronizer.adopt header
      responder := heads.responder.adopt header } := by
  have held := tracked.behind heads.synchronizer List.mem_cons_self
  have heard := tracked.behind header (by simp)
  have taken : (heads.synchronizer.adopt header).Trails exact heads.ledger := by
    rcases heads.synchronizer.adopt_eq_or header with same | same
    · rw [same]
      exact held
    · rw [same]
      exact heard
  refine ⟨tracked.unreported, by rw [tracked.responder], fun other member => ?_, ?_⟩
  · rcases List.mem_cons.mp member with rfl | waiting
    · exact taken
    · exact tracked.behind other (by simp [waiting])
  · obtain ⟨other, member, matching⟩ := tracked.current
    -- The header at the ledger's place is held, has just been heard, or is still on its way.
    rcases List.mem_cons.mp member with rfl | member
    · exact ⟨_, List.mem_cons_self, Header.adopt_matches held heard (.inl matching)⟩
    · rcases List.mem_cons.mp member with rfl | waiting
      · exact ⟨_, List.mem_cons_self, Header.adopt_matches held heard (.inr matching)⟩
      · exact ⟨other, List.mem_cons_of_mem _ waiting, matching⟩

end

/-- Inputs that can be given from outside: neither a response nor a report. -/
def Input.Fair (given : Input) : Prop :=
  given.response? = none ∧ ∀ header, given ≠ .ledgerUpdate header

def Event.report? (name : PeerId) : Event → Option Header
  | .ledgerUpdate node header => if node = name then some header else none
  | _ => none

namespace Cluster

/-- The reports that are on their way to a node. -/
def reports (cluster : Cluster) (name : PeerId) : List Header :=
  cluster.agenda.filterMap fun entry => entry.event.report? name

def heads? (cluster : Cluster) (name : PeerId) : Option Heads :=
  (cluster.node? name).map Node.heads

variable {cluster middle next : Cluster} {name target : PeerId}

theorem heads?_eq : cluster.heads? name =
    (cluster.nodes.map Node.heads)[name.number.toNat]? := List.getElem?_map.symm

theorem heads?_setNode_self {node after : Node} (found : cluster.node? name = some node) :
    (cluster.setNode name after).heads? name = some after.heads := by
  have within : name.number.toNat < cluster.nodes.length :=
    (List.getElem?_eq_some_iff.mp found).1
  rw [heads?, node?, setNode, List.getElem?_set_self within]
  rfl

theorem heads?_setNode_of_ne {after : Node} (other : target ≠ name) :
    (cluster.setNode target after).heads? name = cluster.heads? name := by
  have apart : target.number.toNat ≠ name.number.toNat := mt PeerId.ext_number other
  rw [heads?, node?, setNode, List.getElem?_set_ne apart]
  rfl

section
variable {header : Header}

theorem mem_reports_schedule {delay : Nat} {event : Event} :
    header ∈ (cluster.schedule delay event).reports name ↔
      event.report? name = some header ∨ header ∈ cluster.reports name := by
  simp only [reports, List.mem_filterMap, mem_agenda_schedule]
  constructor
  · rintro ⟨entry, rfl | earlier, reported⟩
    · exact .inl reported
    · exact .inr ⟨entry, earlier, reported⟩
  · rintro (reported | ⟨entry, earlier, reported⟩)
    · exact ⟨_, .inl rfl, reported⟩
    · exact ⟨entry, .inr earlier, reported⟩

theorem mem_reports_foldl {α : Type} {carry : Cluster → α → Cluster}
    (kept : ∀ cluster item, header ∈ (carry cluster item).reports name ↔
      header ∈ cluster.reports name) (items : List α) (cluster : Cluster) :
    header ∈ (items.foldl carry cluster).reports name ↔ header ∈ cluster.reports name := by
  induction items generalizing cluster with
  | nil => exact Iff.rfl
  | cons item rest ih => exact (ih _).trans (kept cluster item)

theorem mem_reports_execute (cluster : Cluster) (output : Output) :
    header ∈ (execute target cluster output).reports name ↔ header ∈ cluster.reports name := by
  cases output with
  | ban peer reason duration =>
    simp only [execute, ban]
    split <;> exact Iff.rfl
  | prioritize peer => exact Iff.rfl
  | sendStatusRequest | sendSyncRequest | schedule =>
    refine mem_reports_schedule.trans (or_iff_right fun told => ?_)
    cases told

theorem mem_reports_post (cluster : Cluster) (letter : Letter) :
    header ∈ (post target cluster letter).reports name ↔ header ∈ cluster.reports name :=
  mem_reports_schedule.trans (or_iff_right nofun)

theorem mem_reports_foldl_report (committed : List Header) (cluster : Cluster) :
    header ∈ (committed.foldl (report target) cluster).reports name ↔
      (target = name ∧ header ∈ committed) ∨ header ∈ cluster.reports name := by
  induction committed generalizing cluster with
  | nil => simp
  | cons first rest ih =>
    rw [List.foldl_cons, ih, report, mem_reports_schedule, Event.report?,
      Option.ite_none_right_eq_some, Option.some.injEq, List.mem_cons, @eq_comm _ first, and_or_left,
      or_assoc]
    exact or_left_comm

variable {outcome : Node.Outcome}

theorem heads?_conclude : (cluster.conclude target outcome).heads? name =
    (cluster.setNode target outcome.node).heads? name := by
  rw [heads?_eq, heads?_eq, conclude, (foldl_report ..).1, map_nodes_foldl_execute fun _ _ => rfl]

theorem mem_reports_conclude : header ∈ (cluster.conclude target outcome).reports name ↔
    (target = name ∧ header ∈ outcome.committed) ∨ header ∈ cluster.reports name := by
  rw [conclude, mem_reports_foldl_report, mem_reports_foldl mem_reports_execute]
  exact Iff.rfl

theorem heads?_applyRequest (request : Responder.Request) :
    (cluster.applyRequest target request).heads? name = (cluster.heads? name).map fun heads =>
      if target = name then { heads with responder := request.adopted heads.responder }
      else heads := by
  cases found : cluster.node? target with
  | none =>
    rw [applyRequest_of_missing found]
    split
    next same => simp [heads?, ← same, found]
    next other => simp
  | some node =>
    have served : (cluster.applyRequest target request).heads? name =
        (cluster.setNode target (node.serve request).1).heads? name := by
      rw [heads?_eq, heads?_eq, applyRequest, found, (foldl_post ..).1]
    rw [served]
    split
    next same =>
      subst same
      rw [heads?_setNode_self found, heads?, found]
      simp only [Node.heads, Node.serve, Responder.head_handle, Option.map_some]
    next other => rw [heads?_setNode_of_ne other, Option.map_id']

theorem mem_reports_applyRequest (request : Responder.Request) :
    header ∈ (cluster.applyRequest target request).reports name ↔
      header ∈ cluster.reports name := by
  rcases applyRequest_cases cluster target request with same | ⟨node, found, same⟩
  · rw [same]
  · rw [same, mem_reports_foldl mem_reports_post]
    exact Iff.rfl

end

/-! ## Events -/

/-- What a node takes its head to be is the same before and after, and so are the reports. -/
structure Leaves (name : PeerId) (cluster next : Cluster) : Prop where
  heads : next.heads? name = cluster.heads? name
  reports : ∀ header, header ∈ next.reports name ↔ header ∈ cluster.reports name

theorem leaves_of_applyInput {input : Input} (other : target ≠ name)
    (done : cluster.applyInput target input = .ok next) : Leaves name cluster next := by
  rcases applyInput_eq_ok done with ⟨-, rfl⟩ | ⟨node, outcome, found, step, rfl⟩
  · exact ⟨rfl, fun header => Iff.rfl⟩
  · refine ⟨heads?_conclude.trans (heads?_setNode_of_ne other), fun header => ?_⟩
    rw [mem_reports_conclude]
    exact or_iff_right fun reported => other reported.1

theorem next_eq_of_missing {input : Input} (missing : cluster.heads? name = none)
    (done : cluster.applyInput name input = .ok next) : next = cluster := by
  rcases applyInput_eq_ok done with ⟨-, same⟩ | ⟨node, outcome, found, -, -⟩
  · exact same
  · simp [heads?, found] at missing

theorem heads_of_applyInput {input : Input} {heads : Heads} (held : cluster.heads? name = some heads)
    (reported : heads.unreported = [])
    (bridges : ∀ response, input.response? = some response → response.2.Bridges)
    (done : cluster.applyInput name input = .ok next) :
    (next.heads? name =
        some { heads with synchronizer := input.adopted heads.synchronizer } ∧
      ∀ header, header ∈ next.reports name ↔ header ∈ cluster.reports name) ∨
    input.response? ≠ none ∧ ∃ header, heads.ledger.version < header.version ∧
      next.heads? name = some { heads with ledger := header } ∧
      ∀ other, other ∈ next.reports name ↔ other = header ∨ other ∈ cluster.reports name := by
  obtain ⟨node, found, rfl⟩ := Option.map_eq_some_iff.mp held
  rcases applyInput_eq_ok done with ⟨missing, -⟩ | ⟨_, outcome, same, step, rfl⟩
  · rw [missing] at found
    cases found
  cases found.symm.trans same
  rw [heads?_conclude, heads?_setNode_self found]
  rcases Node.heads_of_handle step reported bridges with
    ⟨silent, moved⟩ | ⟨brought, header, further, committed, moved⟩
  · left
    refine ⟨congrArg some moved, fun header => ?_⟩
    rw [mem_reports_conclude, silent]
    simp
  · right
    refine ⟨brought, header, further, congrArg some moved, fun other => ?_⟩
    rw [mem_reports_conclude, committed]
    simp

/-- Where the node takes its head to be is known from the reports on their way to it. -/
def Tracks (exact : Prop) (name : PeerId) (cluster : Cluster) : Prop :=
  ∀ heads, cluster.heads? name = some heads → Tracked exact (cluster.reports name) heads

variable {exact : Prop}

theorem Leaves.tracks (leaves : Leaves name cluster next) (tracks : Tracks exact name cluster) :
    Tracks exact name next :=
  fun heads held => (tracks heads (leaves.heads ▸ held)).congr leaves.reports

theorem tracks_of_applyInput {input : Input} (tracks : Tracks exact name cluster)
    (other : ∀ header, input ≠ .ledgerUpdate header)
    (bridges : ∀ response, input.response? = some response → response.2.Bridges)
    (done : cluster.applyInput target input = .ok next) : Tracks exact name next := by
  by_cases here : target = name
  · subst here
    intro later reached
    cases held : cluster.heads? target with
    | none =>
      rw [next_eq_of_missing held done, held] at reached
      cases reached
    | some heads =>
      have tracked := tracks heads held
      rcases heads_of_applyInput held tracked.unreported bridges done with
        ⟨moved, reports⟩ | ⟨-, header, further, moved, reports⟩
      · cases moved.symm.trans reached
        rw [Input.adopted_of_ne other]
        exact tracked.congr reports
      · cases moved.symm.trans reached
        exact tracked.advance (.inl further) reports
  · exact (leaves_of_applyInput here done).tracks tracks

theorem leaves_of_applyRequest {request : Responder.Request}
    (quiet : target ≠ name ∨ ∀ held, request.adopted held = held) :
    Leaves name cluster (cluster.applyRequest target request) := by
  refine ⟨?_, fun header => mem_reports_applyRequest request⟩
  rw [heads?_applyRequest]
  rcases quiet with other | quiet
  · simp [other]
  · simp [quiet]

/-- Once both sides of a node have heard of a report, it need not be on its way any more. -/
theorem tracks_of_report {header : Header} {phase : PhaseKind} {now : Nat}
    (tracks : ∀ heads, cluster.heads? name = some heads →
      Tracked exact (header :: cluster.reports name) heads)
    (heard : cluster.applyInput name (.ledgerUpdate header) = .ok middle) :
    Tracks exact name (middle.applyRequest name (.ledgerUpdate header phase now)) := by
  intro later reached
  rw [heads?_applyRequest, Option.map_eq_some_iff] at reached
  obtain ⟨between, passed, rfl⟩ := reached
  cases held : cluster.heads? name with
  | none =>
    rw [next_eq_of_missing held heard, held] at passed
    cases passed
  | some heads =>
    have tracked := tracks heads held
    have brings (response : PeerId × Extension)
        (brought : (Input.ledgerUpdate header).response? = some response) :
        response.2.Bridges := nomatch brought
    rcases heads_of_applyInput held tracked.unreported brings heard with
      ⟨moved, reports⟩ | ⟨brought, -⟩
    · cases moved.symm.trans passed
      rw [if_pos rfl]
      refine tracked.hear.congr fun other => ?_
      rw [mem_reports_applyRequest, reports]
    · exact absurd rfl brought

theorem adopted_of_errand {sender : PeerId} {message : Message}
    {request : Responder.Request} (errand : message.errand sender = .serve request)
    (held : Header) : request.adopted held = held := by
  cases message <;> cases errand <;> rfl

theorem ne_ledgerUpdate_of_errand {sender : PeerId} {message : Message} {given : Input}
    (errand : message.errand sender = .take given) (header : Header) :
    given ≠ .ledgerUpdate header := by
  cases message <;> cases errand <;> nofun

theorem Processes.tracks {event : Event} (processes : Processes cluster event next)
    (tracks : ∀ heads, cluster.heads? name = some heads →
      Tracked exact ((event.report? name).toList ++ cluster.reports name) heads)
    (genuine : ∀ target header, event ≠ .input target (.ledgerUpdate header))
    (bridges : ∀ response, event.response? = some response → response.2.Bridges) :
    Tracks exact name next := by
  cases processes with
  | lost errand => exact tracks
  | served errand =>
    have quiet := adopted_of_errand errand
    exact (leaves_of_applyRequest (.inr quiet)).tracks tracks
  | taken errand done =>
    simp only [Event.response?, errand] at bridges
    exact tracks_of_applyInput tracks (ne_ledgerUpdate_of_errand errand) bridges done
  | @given target given next done =>
    have other (header : Header) (same : given = .ledgerUpdate header) : False :=
      genuine target header (same ▸ rfl)
    exact tracks_of_applyInput tracks other bridges done
  | @reported target header middle phase now heard =>
    by_cases here : target = name
    · subst here
      simp only [Event.report?, if_true] at tracks
      exact tracks_of_report tracks heard
    · simp only [Event.report?, here, if_false] at tracks
      have passed : Tracks exact name middle := (leaves_of_applyInput here heard).tracks tracks
      exact (leaves_of_applyRequest (.inl here)).tracks passed

/-- Reports come as events of their own, never as inputs. -/
def Genuine (cluster : Cluster) : Prop :=
  ∀ entry ∈ cluster.agenda, ∀ name header, entry.event ≠ .input name (.ledgerUpdate header)

/-! ## Runs -/

theorem reports_of_agenda {first : Scheduled} {rest : List Scheduled}
    (agenda : cluster.agenda = first :: rest) : cluster.reports name =
      (first.event.report? name).toList ++ (cluster.pop first rest).reports name := by
  rw [reports, agenda, List.filterMap_cons]
  cases first.event.report? name <;> rfl

theorem tracks_of_step (tracks : Tracks exact name cluster) (genuine : Genuine cluster)
    (bridges : ∀ response ∈ cluster.inFlight, response.2.Bridges)
    (done : cluster.step = .ok next) : Tracks exact name next := by
  rcases step_eq_ok done with ⟨-, rfl⟩ | ⟨first, rest, agenda, done⟩
  · exact tracks
  · have here : first ∈ cluster.agenda := agenda ▸ List.mem_cons_self
    apply (processes_of_process done).tracks
    · intro heads held
      rw [← reports_of_agenda agenda]
      exact tracks heads held
    · exact genuine first here
    · intro response brings
      exact bridges response (List.mem_filterMap.mpr ⟨first, here, brings⟩)

theorem tracks_of_commitLocal {count : Nat} {header : Header} (tracks : Tracks exact name cluster)
    (sound : Sound cluster) (counted : exact → target = name → count ≠ 0)
    (done : cluster.commitLocal target count = .ok (header, next)) : Tracks exact name next := by
  obtain ⟨node, ledger, found, room, appended, rfl⟩ := commitLocal_eq_ok done
  by_cases here : target = name
  · subst here
    have coherent := (sound.ledgers _ (mem_ledgers found)).1
    have trails : node.ledger.header.Trails exact header := by
      apply coherent.trails_of_append (by simpa using room) appended
      intro certain empty
      exact counted certain rfl (by simpa using empty)
    obtain ⟨-, -, rfl⟩ := Ledger.append_eq_ok appended
    intro later reached
    cases (heads?_setNode_self found).symm.trans reached
    refine (tracks node.heads (by simp [heads?, found])).advance trails fun other => ?_
    rw [mem_reports_schedule, Event.report?, if_pos rfl, Option.some.injEq, @eq_comm _ header]
    exact Iff.rfl
  · refine Leaves.tracks ⟨heads?_setNode_of_ne here, fun other => ?_⟩ tracks
    rw [mem_reports_schedule, Event.report?, if_neg here]
    exact or_iff_right nofun

theorem tracks_start (settings : Settings) (versions : List Nat) :
    Tracks exact name (.start settings versions) := by
  intro heads held
  obtain ⟨node, found, rfl⟩ := Option.map_eq_some_iff.mp held
  obtain ⟨⟨version, position⟩, -, rfl⟩ := List.mem_map.mp (List.mem_of_getElem? found)
  refine ⟨Ledger.unreported_generated version, rfl, fun header member => ?_, _, ?_, .refl _⟩
  · cases List.mem_singleton.mp member
    exact .inr (.refl _)
  · exact List.mem_cons_self

section
variable {settings : Settings} {versions : List UInt64}

theorem Reached.genuine
    (reached : Reached settings versions (fun given => ∀ header, given ≠ .ledgerUpdate header)
      cluster) : Genuine cluster := by
  intro entry member name header same
  exact reached.given (fun timeout header => by cases timeout <;> nofun) entry member name _ same
    header rfl

theorem Reached.steady_tracks : Steady fun cluster =>
    Reached settings versions Input.Fair cluster ∧ Tracks exact name cluster where
  step before done := by
    obtain ⟨reached, tracks⟩ := before
    have sound := (reached.mono fun given fair => fair.1).sound
    have genuine := (reached.mono fun given fair => fair.2).genuine
    exact ⟨reached.step done, tracks_of_step tracks genuine sound.bridges done⟩
  elapse before later := ⟨before.1.elapse later, before.2⟩

theorem tracks_of_perform {move : Move} (fair : ∀ target given, move = .input target given →
      given.Fair) (counted : exact → move ≠ .commitLocal name 0)
    (before : Reached settings versions Input.Fair cluster ∧ Tracks exact name cluster)
    (done : cluster.perform move = .ok next) :
    Reached settings versions Input.Fair next ∧ Tracks exact name next := by
  refine ⟨before.1.perform fair done, ?_⟩
  obtain ⟨reached, tracks⟩ := before
  cases move with
  | corrupt target => cases done; exact tracks
  | silence target => cases done; exact tracks
  | commitLocal target count =>
    obtain ⟨⟨header, after⟩, appended, rfl⟩ := exists_of_map_eq_ok done
    have sound := (reached.mono fun given fair => fair.1).sound
    refine tracks_of_commitLocal tracks sound ?_ appended
    rintro certain rfl rfl
    exact counted certain rfl
  | input target given =>
    cases done
    have leaves : Leaves name cluster (cluster.input target given) :=
      ⟨rfl, fun header => mem_reports_schedule.trans (or_iff_right nofun)⟩
    exact leaves.tracks tracks
  | step => exact (Reached.steady_tracks.step ⟨reached, tracks⟩ done).2
  | runFor duration => exact (Reached.steady_tracks.runUntil ⟨reached, tracks⟩ done).2

/-- Whatever is done to a cluster, short of responses and reports made up by no node: once all
reports to a node have arrived, its responder and its synchronizer hold the same header, at the same
point of the history as the ledger. It is the very header of the ledger unless a commit without
transactions was made there. -/
theorem heads_agree_of_play {moves : List Move}
    (fair : ∀ target given, .input target given ∈ moves → given.Fair)
    (played : play moves (.start settings (versions.map UInt64.toNat)) = .ok cluster)
    {node : Node} (found : cluster.node? name = some node) (arrived : cluster.reports name = []) :
    node.responder.head = node.synchronizer.head ∧
    node.synchronizer.head.version = node.ledger.header.version ∧
    node.synchronizer.head.epoch = node.ledger.header.epoch ∧
    node.synchronizer.head.accumulator = node.ledger.header.accumulator ∧
    (.commitLocal name 0 ∉ moves → node.synchronizer.head = node.ledger.header) := by
  have kept (move : Move) (member : move ∈ moves) {cluster next : Cluster}
      (before : Reached settings versions Input.Fair cluster ∧
        Tracks (.commitLocal name 0 ∉ moves) name cluster)
      (done : cluster.perform move = .ok next) :
      Reached settings versions Input.Fair next ∧
        Tracks (.commitLocal name 0 ∉ moves) name next := by
    refine tracks_of_perform (fun target given same => ?_) (fun without same => ?_) before done
    · exact fair target given (same ▸ member)
    · exact without (same ▸ member)
  obtain ⟨-, tracks⟩ := play_keeps kept ⟨.start, tracks_start settings _⟩ played
  have tracked := tracks node.heads (by rw [heads?, found]; rfl)
  rw [arrived] at tracked
  -- Nothing is on its way, so what the synchronizer holds is where the ledger is.
  obtain ⟨header, member, matching⟩ := tracked.current
  cases List.mem_singleton.mp member
  exact ⟨tracked.responder, matching.version, matching.epoch, matching.accumulator, matching.eq⟩

end

/-- Node 0 commits a transaction of its own and fetches the next one from node 1. All reports have
arrived by then, and the three headers are one. -/
theorem heads_agree_of_play_after_sync :
    ∃ cluster node, play [.commitLocal ⟨0⟩ 1, .input ⟨0⟩ .checkDue, .runFor 41_000_000]
        (.start { updateLimit := 0 } [0, 2]) = .ok cluster ∧
      cluster.node? ⟨0⟩ = some node ∧ node.ledger.version = ⟨2⟩ ∧
      node.responder.head = node.ledger.header ∧ node.synchronizer.head = node.ledger.header := by
  have evaluated : (play [.commitLocal ⟨0⟩ 1, .input ⟨0⟩ .checkDue, .runFor 41_000_000]
      (.start { updateLimit := 0 } ([0, 2].map UInt64.toNat))).toOption.bind (fun cluster =>
        (cluster.node? ⟨0⟩).map fun node => (cluster.reports ⟨0⟩, node.ledger.version)) =
      some ([], ⟨2⟩) := by decide +kernel
  obtain ⟨cluster, node, played, found, seen⟩ := exists_of_play _ _
    (fun cluster node => (cluster.reports ⟨0⟩, node.ledger.version)) _ evaluated
  obtain ⟨arrived, version⟩ := Prod.mk.inj seen
  have fair (target : PeerId) (given : Input) (member : .input target given ∈
      [.commitLocal ⟨0⟩ 1, .input ⟨0⟩ .checkDue, Move.runFor 41_000_000]) : given.Fair := by
    obtain rfl : given = .checkDue := by simp at member; exact member.2
    exact ⟨rfl, nofun⟩
  obtain ⟨same, -, -, -, whole⟩ := heads_agree_of_play fair played found arrived
  have head := whole (by simp)
  exact ⟨cluster, node, played, found, version, same.trans head, head⟩

/-- A commit without transactions moves the ledger of node 0 to a header of the same version, which
its synchronizer does not take up. -/
theorem heads_differ_after_empty_commit :
    ∃ cluster node, play [.commitLocal ⟨0⟩ 0, .runFor 1_000_000] (.start {} [0]) = .ok cluster ∧
      cluster.node? ⟨0⟩ = some node ∧ cluster.reports ⟨0⟩ = [] ∧
      node.synchronizer.head ≠ node.ledger.header := by
  have evaluated : (play [.commitLocal ⟨0⟩ 0, .runFor 1_000_000] (.start {} [0])).toOption.bind
      (fun cluster => (cluster.node? ⟨0⟩).map fun node =>
        (cluster.reports ⟨0⟩, decide (node.synchronizer.head = node.ledger.header))) =
      some ([], false) := by decide +kernel
  obtain ⟨cluster, node, played, found, seen⟩ := exists_of_play _ _
    (fun cluster node =>
      (cluster.reports ⟨0⟩, decide (node.synchronizer.head = node.ledger.header))) _ evaluated
  obtain ⟨arrived, apart⟩ := Prod.mk.inj seen
  exact ⟨cluster, node, played, found, arrived, of_decide_eq_false apart⟩

end Cluster

end Catchup
