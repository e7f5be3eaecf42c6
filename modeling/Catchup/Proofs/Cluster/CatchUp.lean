import Catchup.Proofs.Cluster.Undisturbed

/-! One status check brings a node up to the best of its peers.

Until the node has caught up nothing happens in the cluster but what its check leads to, so what is
to come is known in full. From then on others hear of the version and follow, and that leaves the
node and its source alone. -/

set_option autoImplicit false

namespace Catchup.Cluster

/-- The first of the nodes at the highest version, and that version is ahead of the node's own. -/
structure Selects (origin : Cluster) (name chosen : PeerId) : Prop where
  known : ∃ node, origin.node? chosen = some node
  ahead : (origin.headOf name).version < (origin.headOf chosen).version
  highest : ∀ other node, origin.node? other = some node →
    (origin.headOf other).version ≤ (origin.headOf chosen).version
  first : ∀ other node, origin.node? other = some node → other < chosen →
    (origin.headOf other).version < (origin.headOf chosen).version

/-- Where the node belongs, and whom it has to ask for that. -/
inductive Settles (origin : Cluster) (name : PeerId) : PeerId → List PeerId → Prop where
  | stays : (∀ other node, origin.node? other = some node →
        (origin.headOf other).version ≤ (origin.headOf name).version) →
      Settles origin name name []
  | moves {chosen : PeerId} : Selects origin name chosen → Settles origin name chosen [chosen]

def asking (name peer : PeerId) : Nat × Event :=
  (10_000_000, .deliver name peer (.statusRequest {}))

def telling (origin : Cluster) (name peer : PeerId) : Nat × Event :=
  (20_000_000, .deliver peer name (.statusResponse ⟨origin.headOf peer⟩))

/-- How far the node has come. -/
inductive Stage (origin : Cluster) (name : PeerId) (home : Node) : Cluster → Prop where
  | due {cluster : Cluster} : Stands origin name home [(0, .input name .checkDue)] [] [] cluster →
      Stage origin name home cluster
  /-- Some have been heard, some have answered, some have still to be asked. -/
  | gathering {cluster : Cluster} {node : Node} {check : StatusCheck}
      (heard answered waiting : List PeerId) :
      heard ++ (answered ++ waiting) = home.directory.toList → answered ++ waiting ≠ [] →
      waiting = [] ∨ heard = [] → home.Unmoved node →
      node.synchronizer.phase = .checking check →
      check.Gathers origin.headOf home.ledger.header heard (answered ++ waiting) →
      Stands origin name node (waiting.map (asking name) ++ answered.map (telling origin name) ++
        [(5_000_000_000, .input name (.statusWindowClosed 1))]) [] [] cluster →
      Stage origin name home cluster
  | asked {cluster : Cluster} {node : Node} {chosen : PeerId} {later : List (Nat × Event)} :
      Selects origin name chosen → home.Heads (origin.headOf chosen) (some ⟨chosen, ⟨1⟩⟩) node →
      node.ledger = home.ledger → Timers later →
      Stands origin name node
        ((30_000_000, .deliver name chosen (.syncRequest ⟨home.ledger.header, ⟨1⟩⟩)) :: later)
        [chosen] [] cluster →
      Stage origin name home cluster
  | answered {cluster : Cluster} {node : Node} {chosen : PeerId} {later : List (Nat × Event)}
      {extension : Extension} :
      Selects origin name chosen → home.Heads (origin.headOf chosen) (some ⟨chosen, ⟨1⟩⟩) node →
      node.ledger = home.ledger → extension.Honest → extension.start = home.ledger.header →
      extension.finish = origin.headOf chosen → Timers later →
      Stands origin name node
        ((40_000_000, .deliver chosen name (.syncResponse ⟨extension⟩)) :: later)
        [chosen] [] cluster →
      Stage origin name home cluster
  | committed {cluster : Cluster} {node : Node} {chosen : PeerId} {later : List (Nat × Event)} :
      Selects origin name chosen → home.Heads (origin.headOf chosen) none node →
      node.ledger.header = origin.headOf chosen → Timers later →
      Stands origin name node
        ((41_000_000, .ledgerUpdate name (origin.headOf chosen)) :: later)
        [chosen] [chosen] cluster →
      Stage origin name home cluster
  | settled {cluster : Cluster} {best : PeerId} {asked : List PeerId} :
      Settles origin name best asked → Spreads (origin.headOf best).version cluster →
      Rests name (origin.headOf best) asked asked cluster →
      (∃ requested prioritized,
        Rests best (origin.headOf best) requested prioritized cluster) →
      Stage origin name home cluster

section
variable {origin cluster : Cluster} {name peer chosen : PeerId} {home node : Node}
  {table later : List (Nat × Event)} {asked prioritized : List PeerId}

/-! ## Steps -/

/-- With nobody ahead the node is where it belongs. -/
theorem Stands.stays (stands : Stands origin name node later [] [] cluster) (fresh : Fresh origin)
    (found : origin.node? name = some home) (timers : Timers later) (unmoved : home.Unmoved node)
    (idle : node.synchronizer.phase = .idle home.ledger.header)
    (highest : ∀ other held, origin.node? other = some held →
      (origin.headOf other).version ≤ (origin.headOf name).version) :
    Stage origin name home cluster := by
  have head := headOf_of_found found
  have approaches : node.Approaches (origin.headOf name).version := by
    refine ⟨.of_idle unmoved.settings idle (congrArg Header.version head.symm), ?_⟩
    rw [unmoved.ledger]
    exact (fresh.nodes name home found).reported
  have rests : Rests name (origin.headOf name) [] [] cluster := by
    refine ⟨⟨node, stands.node, head ▸ idle, ?_⟩, stands.requests, stands.priorities⟩
    rw [unmoved.ledger, head]
  exact .settled (.stays highest) (stands.spreads fresh timers approaches) rests ⟨[], [], rests⟩

theorem sorted_asking {peers : List PeerId} {event : Event} :
    (peers.map (asking name) ++ [(5_000_000_000, event)]).Pairwise fun first second : Nat × Event =>
      first.1 ≤ second.1 := by
  refine List.pairwise_append.mpr ⟨List.pairwise_map.mpr ?_, List.pairwise_singleton .., ?_⟩
  · exact List.pairwise_of_forall fun _ _ => Nat.le_refl 10_000_000
  · intro first before second after
    obtain ⟨peer, -, rfl⟩ := List.mem_map.mp before
    cases List.mem_singleton.mp after
    show 10_000_000 ≤ 5_000_000_000
    decide

/-- Of two events entered together one comes before what is there and one after it. -/
theorem enterAll_around {now time soon late : Nat} {event first last : Event}
    (before : now + soon < time) (after : time ≤ now + late) :
    enterAll [(time, event)] now [(soon, first), (late, last)] =
      [(now + soon, first), (time, event), (now + late, last)] := by
  have ahead : enter ([] ++ [(time, event)]) (now + soon) first =
      [] ++ (now + soon, first) :: [(time, event)] := enter_append nofun (by simpa using before)
  have ordered : now + soon ≤ now + late := before.le.trans after
  have behind : enter ([(now + soon, first), (time, event)] ++ []) (now + late) last =
      [(now + soon, first), (time, event)] ++ (now + late, last) :: [] :=
    enter_append (by simpa using ⟨Nat.le_of_add_le_add_left ordered, after⟩) nofun
  rw [List.nil_append] at ahead
  rw [List.append_nil] at behind
  rw [enterAll_cons, ahead, enterAll_cons, List.nil_append, behind]
  rfl

theorem completes_due (fresh : Fresh origin) (found : origin.node? name = some home)
    (stands : Stands origin name home [] [] [] cluster) (now : cluster.now = 0) :
    cluster.Completes (Stage origin name home) (.input name .checkDue) := by
  have new := fresh.nodes name home found
  have limit : home.synchronizer.settings.checkLimit = none := by rw [new.synchronizer]; rfl
  have unchecked : home.synchronizer.lastCheck = 0 := by rw [new.synchronizer]; rfl
  have idle : home.synchronizer.phase = .idle home.ledger.header := by
    rw [new.synchronizer]
    rfl
  obtain ⟨outcome, step⟩ := Node.exists_handle .trusting .checkDue
    (Synchronizer.not_overflows_of_unsent limit new.unmoved.unsent fun _ => unchecked)
  obtain ⟨bare, ledger, transition, after, outputs, committed⟩ := Node.handle_eq_ok step
  obtain ⟨rfl, decided⟩ := transition.of_checkDue idle limit unchecked
  rw [Ledger.takeUnreported_of_reported new.reported] at after committed
  rcases decided with ⟨nobody, rfl⟩ | ⟨somebody, checking, sends⟩
  · -- There is nobody to ask, so the node is alone in the cluster.
    refine stands.completes rfl step (by rw [outputs]; rfl) (by rw [outputs]; nofun)
      fun stands => ?_
    rw [outputs, committed] at stands
    refine stands.stays fresh found .nil (by rw [after]; exact new.unmoved)
      (by rw [after]; exact idle) fun other held known => ?_
    by_cases here : other = name
    · subst here
      exact Version.le_refl _
    · have listed := (fresh.acquainted name home found other).mpr ⟨here, held, known⟩
      rw [PeerSet.peers_directory] at nobody
      rw [nobody] at listed
      cases listed
  · have planned : outcome.outputs.filterMap (Output.planned? name) =
        home.directory.toList.map (asking name) ++
          [(5_000_000_000, .input name (.statusWindowClosed 1))] := by
      rw [outputs, sends, new.unmoved.settings]
      simp [List.filterMap_append, List.filterMap_map, Function.comp_def, Output.planned?,
        Output.event?, Output.delay, asking, latency, Timeout.input]
    have others : outcome.outputs.filterMap (Output.ban? name) = [] ∧
        outcome.outputs.filterMap (Output.sent? name) = [] ∧
        outcome.outputs.filterMap (Output.priority? name) = [] := by
      rw [outputs, sends]
      simp [Output.ban?, Output.sent?, Output.priority?]
    refine stands.completes rfl step others.1 (by simp [planned, asking, or_imp, forall_and])
      fun stands => ?_
    rw [planned, committed, others.2.1, others.2.2, now, List.map_nil, List.append_nil,
      enterAll_of_sorted sorted_asking fun entry member => by cases member] at stands
    simp only [Nat.zero_add, List.map_id', List.nil_append, List.map_nil] at stands
    have phase : outcome.node.synchronizer.phase =
        .checking (.ofPeers 1 home.ledger.header home.directory.toList) := by
      rw [after]
      exact congrArg Synchronizer.phase checking
    have unmoved : home.Unmoved outcome.node := by
      rw [after]
      exact new.unmoved.after (by rw [checking]) (by rw [checking])
    exact .gathering [] [] _ rfl somebody (.inr rfl) unmoved phase
      (StatusCheck.gathers_ofPeers 1 home.directory.ascending) (by simpa using stands)

/-! ### The check -/

theorem completes_ask {check : StatusCheck} {answered waiting : List PeerId}
    (fresh : Fresh origin) (found : origin.node? name = some home)
    (everyone : answered ++ peer :: waiting = home.directory.toList) (unmoved : home.Unmoved node)
    (phase : node.synchronizer.phase = .checking check)
    (gathers : check.Gathers origin.headOf home.ledger.header [] (answered ++ peer :: waiting))
    (stands : Stands origin name node (waiting.map (asking name) ++
      answered.map (telling origin name) ++
        [(5_000_000_000, .input name (.statusWindowClosed 1))]) [] [] cluster)
    (now : cluster.now = 10_000_000) :
    cluster.Completes (Stage origin name home) (.deliver name peer (.statusRequest {})) := by
  have listed : peer ∈ home.directory.toList := everyone ▸ by simp
  obtain ⟨other, held, known⟩ := (fresh.acquainted name home found peer).mp listed
  obtain ⟨plans, stands⟩ := stands.applyRequest (.status name) other known rfl
  refine ⟨_, _, rfl, ?_, plans, fun plan member => ?_⟩
  · -- The answer is due when the earlier ones are, so it lines up behind them.
    have told : (held.serve (.status name)).2.1.map (fun letter =>
        ((latency, .deliver peer letter.peer letter.message) : Nat × Event)) =
        [(latency, (telling origin name peer).2)] := by
      rw [telling, headOf_of_found known, ← (fresh.nodes peer held known).responder]
      rfl
    rw [told, now, enterAll_cons, enterAll_nil, enter_append] at stands
    · have regrouped : waiting.map (asking name) ++ answered.map (telling origin name) ++
          (10_000_000 + latency, (telling origin name peer).2) ::
            [(5_000_000_000, .input name (.statusWindowClosed 1))] =
          waiting.map (asking name) ++ (answered ++ [peer]).map (telling origin name) ++
            [(5_000_000_000, .input name (.statusWindowClosed 1))] := by
        simp [telling, latency]
      rw [regrouped] at stands
      refine .gathering [] (answered ++ [peer]) waiting ?_ (by simp) (.inr rfl) unmoved phase ?_
        stands
      · simpa using everyone
      · simpa using gathers
    · intro entry member
      rcases List.mem_append.mp member with asked | told
      · obtain ⟨peer, -, rfl⟩ := List.mem_map.mp asked
        show 10_000_000 ≤ 10_000_000 + latency
        decide
      · obtain ⟨peer, -, rfl⟩ := List.mem_map.mp told
        show 20_000_000 ≤ 10_000_000 + latency
        decide
    · intro entry member
      cases List.mem_singleton.mp member
      show 10_000_000 + latency < 5_000_000_000
      decide
  · obtain ⟨letter, -, rfl⟩ := List.mem_map.mp member
    exact Nat.succ_pos _

/-- Everyone the node knows has been heard, so the best answer is the best of all. -/
theorem selects_or_highest {check : StatusCheck} (fresh : Fresh origin)
    (found : origin.node? name = some home)
    (gathers : check.Gathers origin.headOf home.ledger.header home.directory.toList [])
    (somebody : home.directory.toList ≠ []) :
    ∃ chosen ∈ home.directory.toList, check.best? = some (chosen, origin.headOf chosen) ∧
      ((origin.headOf chosen).isAheadOf home.ledger.header = true → Selects origin name chosen) ∧
      ((origin.headOf chosen).isAheadOf home.ledger.header = false →
        ∀ other held, origin.node? other = some held →
          (origin.headOf other).version ≤ (origin.headOf name).version) := by
  obtain ⟨nobody, -⟩ | ⟨chosen, listed, best, highest⟩ := gathers.best? home.directory.ascending
  · exact absurd nobody somebody
  have head := headOf_of_found found
  have heard (other : PeerId) (held : Node) (known : origin.node? other = some held)
      (apart : other ≠ name) : other ∈ home.directory.toList :=
    (fresh.acquainted name home found other).mpr ⟨apart, held, known⟩
  refine ⟨chosen, listed, best, fun ahead => ?_, fun behind other held known => ?_⟩
  · have above : (origin.headOf name).version < (origin.headOf chosen).version :=
      Header.isAheadOf_iff_lt.mp (head ▸ ahead)
    refine ⟨((fresh.acquainted name home found chosen).mp listed).2, above,
      fun other held known => ?_, fun other held known before => ?_⟩
    · by_cases here : other = name
      · exact here ▸ Version.le_of_lt above
      · exact (highest other (heard other held known here)).1
    · by_cases here : other = name
      · exact here ▸ above
      · exact (highest other (heard other held known here)).2 before
  · by_cases here : other = name
    · exact here ▸ Version.le_refl _
    · rw [head]
      exact Version.le_trans (highest other (heard other held known here)).1
        (Header.isAheadOf_eq_false_iff.mp behind)

theorem completes_answer {check : StatusCheck} {heard answered : List PeerId}
    (fresh : Fresh origin) (found : origin.node? name = some home)
    (everyone : heard ++ peer :: answered = home.directory.toList) (unmoved : home.Unmoved node)
    (phase : node.synchronizer.phase = .checking check)
    (gathers : check.Gathers origin.headOf home.ledger.header heard (peer :: answered))
    (stands : Stands origin name node (answered.map (telling origin name) ++
      [(5_000_000_000, .input name (.statusWindowClosed 1))]) [] [] cluster)
    (now : cluster.now = 20_000_000) :
    cluster.Completes (Stage origin name home) (telling origin name peer).2 := by
  have reported := (fresh.nodes name home found).reported
  rw [← unmoved.ledger] at reported
  have limit : node.synchronizer.settings.checkLimit = none := by rw [unmoved.settings]
  obtain ⟨outcome, step⟩ := Node.exists_handle .trusting (.statusResponse peer (origin.headOf peer))
    (Synchronizer.not_overflows_of_unsent limit unmoved.unsent fun same => by cases same)
  obtain ⟨bare, ledger, transition, after, outputs, committed⟩ := Node.handle_eq_ok step
  obtain ⟨rfl, decided⟩ := transition.of_answer phase gathers
  rw [Ledger.takeUnreported_of_reported reported] at after committed
  have regrouped : heard ++ peer :: answered = (heard ++ [peer]) ++ answered := by simp
  rw [regrouped] at everyone
  have recorded := gathers.record
  rcases decided with ⟨more, rfl⟩ | ⟨rfl, nobody, idle, quiet⟩ |
    ⟨rfl, chosen, target, reaction, finds, pursues, syncing, sends⟩
  · -- Others have still to be heard.
    refine stands.completes rfl step (by rw [outputs]; rfl) (by rw [outputs]; nofun)
      fun stands => ?_
    rw [outputs, committed] at stands
    have kept : home.Unmoved outcome.node := by
      rw [after]
      exact unmoved.after rfl rfl
    refine .gathering (heard ++ [peer]) answered [] ?_ ?_ (.inl rfl) kept
      (by rw [after]; rfl) ?_ stands
    · rwa [List.append_nil]
    · rwa [List.append_nil]
    · rwa [List.append_nil]
  · -- The last answer closes the check, and nobody is ahead.
    rw [List.append_nil] at everyone
    rw [everyone] at recorded
    obtain ⟨chosen, listed, best, -, behind⟩ :=
      selects_or_highest fresh found recorded (everyone ▸ by simp)
    have highest := behind (Bool.eq_false_iff.mpr fun ahead =>
      nobody chosen _ ⟨best, recorded.head ▸ ahead⟩)
    refine stands.completes rfl step (by rw [outputs, quiet]; rfl) (by rw [outputs, quiet]; nofun)
      fun stands => ?_
    rw [outputs, quiet, committed] at stands
    refine stands.stays fresh found (.cons (by decide) .nil) ?_ ?_ highest
    · rw [after]
      exact unmoved.after (by rw [idle]; rfl) (by rw [idle]; rfl)
    · rw [after]
      exact congrArg Synchronizer.phase idle
  · -- The last answer closes the check, and the best peer is asked.
    rw [List.append_nil] at everyone
    rw [everyone] at recorded
    obtain ⟨best, listed, decides, ahead, -⟩ :=
      selects_or_highest fresh found recorded (everyone ▸ by simp)
    cases decides.symm.trans finds.best
    have known : node.directory.directory.has chosen = true := by
      rw [PeerSet.has_directory, unmoved.directory]
      exact PeerSet.contains_iff.mpr listed
    obtain ⟨⟨pursuit, pursuing, start, goal, pending⟩, settings, asks⟩ :=
      pursues.of_found finds known
    rw [unmoved.unsent, unmoved.settings, recorded.head] at asks
    rw [unmoved.unsent] at pending
    have planned : outcome.outputs.filterMap (Output.planned? name) =
        [(10_000_000, .deliver name chosen (.syncRequest ⟨home.ledger.header, ⟨1⟩⟩)),
          (5_000_000_000, .input name (.requestTimedOut chosen ⟨1⟩))] := by
      rw [outputs, sends, asks]
      rfl
    have others : outcome.outputs.filterMap (Output.ban? name) = [] ∧
        outcome.outputs.filterMap (Output.sent? name) = [⟨name, chosen, ⟨1⟩⟩] ∧
        outcome.outputs.filterMap (Output.priority? name) = [] := by
      rw [outputs, sends, asks]
      exact ⟨rfl, rfl, rfl⟩
    refine stands.completes rfl step others.1 (by simp [planned]) fun stands => ?_
    rw [planned, committed, others.2.1, others.2.2, now, List.map_nil, List.map_nil,
      List.append_nil, List.nil_append, enterAll_around (by decide) (by decide)] at stands
    have timers : Timers [(5_000_000_000, .input name (.statusWindowClosed 1)),
        (5_020_000_000, .input name (.requestTimedOut chosen ⟨1⟩))] :=
      .cons (by decide) (.cons (by decide) .nil)
    refine .asked (ahead (recorded.head ▸ finds.ahead)) ?_ ?_ timers stands
    · rw [after]
      refine ⟨?_, ⟨pursuit, ?_, start.trans recorded.head, goal, pending⟩, reported⟩
      · exact (congrArg Synchronizer.settings syncing).trans (settings.trans unmoved.settings)
      · exact (congrArg Synchronizer.phase syncing).trans pursuing
    · rw [after]
      exact unmoved.ledger

/-! ### The pursuit -/

theorem Selects.ne (selects : Selects origin name chosen) : chosen ≠ name := by
  rintro rfl
  exact Nat.lt_irrefl _ (Version.lt_iff.mp selects.ahead)

/-- The peer that was asked is still as it was at the start. -/
theorem Stands.exists_rests (stands : Stands origin name node table asked prioritized cluster)
    (fresh : Fresh origin) (selects : Selects origin name chosen) :
    ∃ requested prioritized, Rests chosen (origin.headOf chosen) requested prioritized cluster := by
  obtain ⟨source, known⟩ := selects.known
  have head := headOf_of_found known
  refine ⟨_, _, ⟨source, (stands.others chosen selects.ne).trans known, ?_, head.symm⟩, rfl, rfl⟩
  rw [(fresh.nodes chosen source known).synchronizer, head]
  rfl

theorem completes_asked (fresh : Fresh origin) (found : origin.node? name = some home)
    (selects : Selects origin name chosen)
    (heads : home.Heads (origin.headOf chosen) (some ⟨chosen, ⟨1⟩⟩) node)
    (ledger : node.ledger = home.ledger) (timers : Timers later)
    (stands : Stands origin name node later [chosen] [] cluster) (now : cluster.now = 30_000_000) :
    cluster.Completes (Stage origin name home)
      (.deliver name chosen (.syncRequest ⟨home.ledger.header, ⟨1⟩⟩)) := by
  obtain ⟨source, known⟩ := selects.known
  have behind : home.ledger.version < source.ledger.version := by
    have ahead := selects.ahead
    rwa [headOf_of_found found, headOf_of_found known] at ahead
  obtain ⟨extension, served, honest, start, finish⟩ :=
    (fresh.nodes name home found).exists_served (fresh.nodes chosen source known) behind
  have reply : source.serve (.sync name ⟨home.ledger.header, ⟨1⟩⟩) =
      (source, [⟨name, .syncResponse ⟨extension⟩⟩], [.requestServed]) := by
    simp only [Node.serve, Responder.handle, Responder.onSyncRequest, served]
  obtain ⟨plans, after⟩ := stands.applyRequest _ selects.ne known (congrArg Prod.fst reply)
  have listening : cluster.process (.deliver name chosen (.syncRequest ⟨home.ledger.header, ⟨1⟩⟩)) =
      .ok (cluster.applyRequest chosen (.sync name ⟨home.ledger.header, ⟨1⟩⟩)) := by
    rw [process, deliver, stands.attentive]
    rfl
  rw [reply] at plans after
  refine ⟨_, _, listening, ?_, plans, fun plan member => ?_⟩
  · simp only [List.map_singleton, now, latency, enterAll_cons, enterAll_nil] at after
    rw [timers.enter_first (by decide)] at after
    exact .answered selects heads ledger honest start (finish.trans (headOf_of_found known).symm)
      timers after
  · cases List.mem_singleton.mp member
    exact Nat.succ_pos _

theorem completes_answered {extension : Extension} (selects : Selects origin name chosen)
    (heads : home.Heads (origin.headOf chosen) (some ⟨chosen, ⟨1⟩⟩) node)
    (ledger : node.ledger = home.ledger) (honest : extension.Honest)
    (start : extension.start = home.ledger.header)
    (finish : extension.finish = origin.headOf chosen) (timers : Timers later)
    (stands : Stands origin name node later [chosen] [] cluster)
    (now : cluster.now = 40_000_000) :
    cluster.Completes (Stage origin name home)
      (.deliver chosen name (.syncResponse ⟨extension⟩)) := by
  obtain ⟨outcome, step⟩ := heads.approaches.exists_handle .trusting
    (.syncResponse chosen extension) (congrArg Header.version finish)
  obtain ⟨settings, ⟨pursuit, phase, head, target, pending⟩, reported⟩ := heads
  have solicited : Verification.checkSolicited pursuit chosen extension = .ok () :=
    Verification.checkSolicited_eq_ok_iff.mpr ⟨⟨_, pending⟩, by rw [start, head]⟩
  have current : extension.start = node.ledger.header := by rw [start, ledger]
  obtain ⟨stored, judged, reached, unreported⟩ :=
    Verification.exists_accepted_of_honest .trusting honest solicited current rfl rfl
  obtain ⟨bare, kept, transition, after, outputs, committed⟩ := Node.handle_eq_ok step
  obtain ⟨rfl, accepted, sends⟩ := transition.of_accepted phase judged
  rw [settings, head] at sends
  have taken : outcome.committed = [origin.headOf chosen] := by
    rw [committed, Ledger.takeUnreported, unreported, reported, finish]
    rfl
  have planned : outcome.outputs.filterMap (Output.planned? name) =
      [(1_000_000_000, .input name (.commitOverdue home.ledger.version))] := by
    rw [outputs, sends]
    rfl
  have others : outcome.outputs.filterMap (Output.ban? name) = [] ∧
      outcome.outputs.filterMap (Output.sent? name) = [] ∧
      outcome.outputs.filterMap (Output.priority? name) = [⟨name, chosen⟩] := by
    rw [outputs, sends]
    exact ⟨rfl, rfl, rfl⟩
  refine stands.completes rfl step others.1 (by simp [planned]) fun stands => ?_
  rw [planned, taken, others.2.1, others.2.2, now] at stands
  simp only [List.map_singleton, List.singleton_append, enterAll_cons, enterAll_nil, commitDelay]
    at stands
  -- The report of the commit comes first, and the timer of the commit after the first second.
  have later' : Timers
      (enter later (40_000_000 + 1_000_000_000)
        (.input name (.commitOverdue home.ledger.version))) :=
    timers.enter (by decide)
  rw [later'.enter_first (by decide)] at stands
  refine .committed selects ?_ ?_ later' stands
  · rw [after]
    refine ⟨(congrArg Synchronizer.settings accepted).trans settings, ?_, rfl⟩
    exact ⟨_, congrArg Synchronizer.phase accepted, head, target, rfl⟩
  · rw [after]
    exact reached.trans finish

theorem completes_committed (fresh : Fresh origin) (found : origin.node? name = some home)
    (selects : Selects origin name chosen) (heads : home.Heads (origin.headOf chosen) none node)
    (caught : node.ledger.header = origin.headOf chosen) (timers : Timers later)
    (stands : Stands origin name node later [chosen] [chosen] cluster) :
    cluster.Completes (Stage origin name home) (.ledgerUpdate name (origin.headOf chosen)) := by
  obtain ⟨outcome, step⟩ :=
    heads.approaches.exists_handle .trusting (.ledgerUpdate (origin.headOf chosen)) rfl
  obtain ⟨settings, ⟨pursuit, phase, head, target, pending⟩, reported⟩ := heads
  obtain ⟨bare, kept, transition, after, outputs, committed⟩ := Node.handle_eq_ok step
  have ahead : (origin.headOf chosen).isAheadOf pursuit.head = true := by
    have above := selects.ahead
    rw [headOf_of_found found] at above
    exact Header.isAheadOf_iff_lt.mpr (head ▸ above)
  have reaches := Synchronizer.isSynced_withHead (congrArg Header.version target)
  obtain ⟨rfl, idle, quiet⟩ := transition.of_report phase ahead reaches
  rw [Ledger.takeUnreported_of_reported reported] at after committed
  have heard := applyInput_of_handle stands.node step
  have plans : Plans cluster (cluster.conclude name outcome) _ := plans_conclude
  have stands := stands.conclude outcome (by rw [outputs, quiet]; rfl)
  rw [outputs, quiet, committed] at plans stands
  have resting : outcome.node.synchronizer.phase = .idle (origin.headOf chosen) := by
    rw [after]
    exact congrArg Synchronizer.phase idle
  have approaches : outcome.node.Approaches (origin.headOf chosen).version := by
    refine ⟨.of_idle ?_ resting rfl, by rw [after]; exact reported⟩
    rw [after]
    exact (congrArg Synchronizer.settings idle).trans settings
  have holds : Holds (origin.headOf chosen).version (cluster.conclude name outcome) name := by
    intro other same
    cases stands.node.symm.trans same
    rw [Ledger.version, after, caught]
  -- The node is where it belongs now, and its responder may begin to tell others.
  have continues := (stands.spreads fresh timers approaches).applyRequest
    (.ledgerUpdate (origin.headOf chosen) outcome.node.phaseKind
      ((cluster.conclude name outcome).now)) rfl holds
  obtain ⟨more, further, positive⟩ := continues.plans
  refine ⟨_, _, ?_, ?_, plans.trans further, positive⟩
  · simp only [process, heard]
    exact congrArg Except.ok (by rw [stands.node])
  have rests : Rests name (origin.headOf chosen) [chosen] [chosen]
      (cluster.conclude name outcome) :=
    ⟨⟨outcome.node, stands.node, resting, by rw [after]; exact caught⟩, stands.requests,
      stands.priorities⟩
  obtain ⟨requested, prioritized, unchanged⟩ := stands.exists_rests fresh selects
  exact .settled (.moves selects) continues.spreads (continues.rests _ _ _ _ rfl rests)
    ⟨_, _, continues.rests _ _ _ _ rfl unchanged⟩

/-! ### Afterwards -/

/-- Who rests at the version is left alone while it spreads. -/
theorem completes_settled {best : PeerId} {first : Scheduled} {rest : List Scheduled}
    (settles : Settles origin name best asked)
    (spreads : Spreads (origin.headOf best).version cluster)
    (rests : Rests name (origin.headOf best) asked asked cluster)
    (source : ∃ requested prioritized,
      Rests best (origin.headOf best) requested prioritized cluster)
    (agenda : cluster.agenda = first :: rest) (soon : first.due ≤ 1_000_000_000) :
    (cluster.pop first rest).Completes (Stage origin name home) first.event := by
  obtain ⟨next, done, continues⟩ := spreads.step agenda soon
  obtain ⟨requested, prioritized, unchanged⟩ := source
  obtain ⟨planned, plans, positive⟩ := continues.plans
  have kept : Rests name (origin.headOf best) asked asked (cluster.pop first rest) :=
    ⟨rests.node, rests.requests, rests.priorities⟩
  have left : Rests best (origin.headOf best) requested prioritized (cluster.pop first rest) :=
    ⟨unchanged.node, unchanged.requests, unchanged.priorities⟩
  exact ⟨next, planned, done, .settled settles continues.spreads
    (continues.rests _ _ _ _ rfl kept) ⟨_, _, continues.rests _ _ _ _ rfl left⟩, plans, positive⟩

theorem stage_proceeds (fresh : Fresh origin) (found : origin.node? name = some home) :
    Proceeds (Stage origin name home) 1_000_000_000 := by
  intro cluster first rest stage agenda soon
  cases stage with
  | due stands =>
    obtain ⟨due, event, stands⟩ := stands.pop agenda
    rw [event]
    exact completes_due fresh found stands due
  | gathering heard answered waiting everyone some apart unmoved phase gathers stands =>
    cases waiting with
    | cons peer waiting =>
      obtain ⟨due, event, stands⟩ := stands.pop agenda
      obtain none | rfl := apart
      · cases none
      rw [event]
      exact completes_ask fresh found everyone unmoved phase gathers stands due
    | nil =>
      cases answered with
      | nil => exact absurd rfl some
      | cons peer answered =>
        obtain ⟨due, event, stands⟩ := stands.pop agenda
        rw [List.append_nil] at everyone gathers
        rw [event]
        exact completes_answer fresh found everyone unmoved phase gathers stands due
  | asked selects heads ledger timers stands =>
    obtain ⟨due, event, stands⟩ := stands.pop agenda
    rw [event]
    exact completes_asked fresh found selects heads ledger timers stands due
  | answered selects heads ledger honest start finish timers stands =>
    obtain ⟨due, event, stands⟩ := stands.pop agenda
    rw [event]
    exact completes_answered selects heads ledger honest start finish timers stands due
  | committed selects heads caught timers stands =>
    obtain ⟨due, event, stands⟩ := stands.pop agenda
    rw [event]
    exact completes_committed fresh found selects heads caught timers stands
  | settled settles spreads rests source =>
    exact completes_settled settles spreads rests source agenda soon

/-- With nothing more to come within the first second the node is where it belongs. -/
theorem Stage.settled_of_late (stage : Stage origin name home cluster)
    (late : ∀ entry ∈ cluster.timetable, 1_000_000_000 < entry.1) :
    ∃ best asked requested prioritized, Settles origin name best asked ∧
      Rests name (origin.headOf best) asked asked cluster ∧
      Rests best (origin.headOf best) requested prioritized cluster := by
  have early {node : Node} {due : Nat} {event : Event} {table : List (Nat × Event)}
      {asked prioritized : List PeerId}
      (stands : Stands origin name node ((due, event) :: table) asked prioritized cluster)
      (soon : due ≤ 1_000_000_000) : False :=
    Nat.not_lt.mpr soon (late (due, event) (stands.timetable ▸ List.mem_cons_self))
  cases stage with
  | gathering heard answered waiting everyone some apart unmoved phase gathers stands =>
    cases waiting with
    | cons peer waiting => exact (early stands (by decide)).elim
    | nil =>
      cases answered with
      | nil => exact absurd rfl some
      | cons peer answered => exact (early stands (by decide)).elim
  | due stands | committed _ _ _ _ stands => exact (early stands (by decide)).elim
  | asked _ _ _ _ stands => exact (early stands (by decide)).elim
  | answered _ _ _ _ _ _ _ stands => exact (early stands (by decide)).elim
  | settled settles spreads rests source =>
    obtain ⟨requested, prioritized, source⟩ := source
    exact ⟨_, _, requested, prioritized, settles, rests, source⟩

end

end Catchup.Cluster
