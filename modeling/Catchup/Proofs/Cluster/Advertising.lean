import Catchup.Proofs.Cluster.Reached
import Catchup.Proofs.Cluster.Timetable
import Catchup.Proofs.Ledger.Generated
import Catchup.Proofs.Ledger.Serving
import Catchup.Proofs.Synchronizer.Commit

/-! Nodes advertise only what they can serve.

The head of a responder lags behind the ledger, and a message about it lags behind the responder.
Neither is ever overtaken by a change of the past: the ledger only grows, so a header that once lay
on its history lies on it for good. -/

set_option autoImplicit false

namespace Catchup

/-! ## Ledgers -/

/-- The ledger was at that version once, with that accumulator. -/
structure Header.LiesOn (header : Header) (ledger : Ledger) : Prop where
  version : header.version ≤ ledger.version
  accumulator : ledger.accumulatorAt? header.version = some header.accumulator

namespace Ledger

variable {ledger after : Ledger} {header : Header}

theorem Coherent.liesOn_iff (coherent : ledger.Coherent) : header.LiesOn ledger ↔
    header.version.toNat ≤ ledger.transactions.length ∧
      Digest.zero.accumulateAll (ledger.transactions.take header.version.toNat) =
        header.accumulator := by
  constructor
  · rintro ⟨version, accumulator⟩
    rw [Version.le_iff, coherent.version] at version
    rw [coherent.accumulatorAt?, if_pos version] at accumulator
    exact ⟨version, Option.some.inj accumulator⟩
  · rintro ⟨version, accumulator⟩
    refine ⟨Version.le_iff.mpr (coherent.version ▸ version), ?_⟩
    rw [coherent.accumulatorAt?, if_pos version, accumulator]

theorem Coherent.header_liesOn (coherent : ledger.Coherent) : ledger.header.LiesOn ledger := by
  have counted : ledger.header.version.toNat = ledger.transactions.length := coherent.version
  refine coherent.liesOn_iff.mpr ⟨Nat.le_of_eq counted, ?_⟩
  rw [counted, List.take_length, coherent.accumulator]

theorem Coherent.liesOn_of_prefix (coherent : ledger.Coherent) (grown : after.Coherent)
    (kept : ledger.transactions <+: after.transactions) (lies : header.LiesOn ledger) :
    header.LiesOn after := by
  obtain ⟨version, accumulator⟩ := coherent.liesOn_iff.mp lies
  obtain ⟨more, whole⟩ := kept
  refine grown.liesOn_iff.mpr ⟨?_, ?_⟩
  · rw [← whole, List.length_append]
    exact Nat.le_add_right_of_le version
  · rw [← whole, List.take_append_of_le_length version, accumulator]

/-- Whoever is behind, but on the history of the ledger, is served up to its head. -/
theorem Coherent.exists_extensionFrom (coherent : ledger.Coherent) {start : Header}
    (behind : start.version < ledger.version)
    (shared : ledger.accumulatorAt? start.version = some start.accumulator) :
    ∃ extension, ledger.extensionFrom start = some extension ∧ extension.start = start ∧
      extension.finish = ledger.header := by
  obtain ⟨extension, served⟩ := (coherent.serves_iff start).mpr ⟨behind, shared⟩
  obtain ⟨-, -, rfl⟩ := coherent.extensionFrom_eq_some_iff.mp served
  exact ⟨_, served, rfl, rfl⟩

end Ledger

/-! ## Nodes -/

def Message.header? : Message → Option Header
  | .statusResponse response => some response.header
  | .statusUpdate update => some update.header
  | _ => none

def Event.advertised? (name : PeerId) : Event → Option Header
  | .deliver sender _ message => if sender = name then message.header? else none
  | _ => none

/-- A header that the node answers for: it reports it to itself or advertises it to others. -/
def Event.header? (name : PeerId) : Event → Option Header
  | .ledgerUpdate node header => if node = name then some header else none
  | event => event.advertised? name

namespace Node

/-- The ledger of the node accounts for the head of its responder and for the headers on their
way. -/
structure Vouches (node : Node) (headers : List Header) : Prop where
  coherent : node.ledger.Coherent
  reported : node.ledger.unreported = []
  head : node.responder.head.LiesOn node.ledger
  headers : ∀ header ∈ headers, header.LiesOn node.ledger

variable {node : Node} {headers more : List Header}

/-- What lay on the history of the ledger lies on that of a ledger that goes on with it. -/
theorem Vouches.grow (vouches : node.Vouches headers) {after : Node} (grown : after.ledger.Coherent)
    (reported : after.ledger.unreported = []) (responder : after.responder = node.responder)
    (kept : node.ledger.transactions <+: after.ledger.transactions)
    (new : ∀ header ∈ more, header ∈ headers ∨ header.LiesOn after.ledger) :
    after.Vouches more := by
  have lies {header : Header} (before : header.LiesOn node.ledger) : header.LiesOn after.ledger :=
    vouches.coherent.liesOn_of_prefix grown kept before
  refine ⟨grown, reported, responder ▸ lies vouches.head, fun header member => ?_⟩
  exact (new header member).elim (fun old => lies (vouches.headers header old)) id

theorem prefix_of_handle {proofs : Proofs} {input : Input} {outcome : Outcome}
    (done : node.handle proofs input = .ok outcome) :
    node.ledger.transactions <+: outcome.node.ledger.transactions := by
  obtain ⟨bare, ledger, transition, after, -, -⟩ := handle_eq_ok done
  rw [after]
  exact transition.precedes.transactions

theorem Vouches.handle (vouches : node.Vouches headers) {proofs : Proofs} {input : Input}
    {outcome : Outcome} (done : node.handle proofs input = .ok outcome)
    (bounded : outcome.node.ledger.transactions.length < UInt64.size) :
    outcome.node.Vouches (outcome.committed ++ headers) := by
  have kept := prefix_of_handle done
  obtain ⟨bare, ledger, transition, after, -, committed⟩ := handle_eq_ok done
  rw [after] at kept bounded ⊢
  rw [committed]
  rcases transition.commit_cases with ⟨rfl, -⟩ | ⟨pursuit, peer, extension, -, -, judged, -⟩
  · refine vouches.grow vouches.coherent.takeUnreported rfl rfl kept fun header member => ?_
    -- Nothing is committed, so there is nothing to report.
    rw [Ledger.takeUnreported, vouches.reported] at member
    exact .inl member
  · have decides := Verification.decides_of_judge judged
    have grown := vouches.coherent.of_decides decides bounded
    obtain ⟨-, -, done⟩ := decides.accepted
    obtain ⟨-, -, -, rfl⟩ :=
      Ledger.commit_eq_ok_iff.mp (Verification.committer_eq_ok_iff.mp done)
    refine vouches.grow grown.takeUnreported rfl rfl kept fun header member => ?_
    rcases List.mem_append.mp member with new | old
    · simp only [Ledger.takeUnreported, vouches.reported, List.nil_append] at new
      cases List.mem_singleton.mp new
      exact .inr grown.takeUnreported.header_liesOn
    · exact .inl old

/-- What the responder takes up is a report that it hears, and what it sends out is its own head. -/
theorem Vouches.serve (vouches : node.Vouches headers) {request : Responder.Request}
    (heard : ∀ header phase now, request = .ledgerUpdate header phase now → header ∈ headers) :
    (node.serve request).1.Vouches headers ∧
      ∀ letter ∈ (node.serve request).2.1, ∀ header, letter.message.header? = some header →
        header.LiesOn node.ledger := by
  have refresh (head : Header) (lies : head.LiesOn node.ledger) (responder : Responder Float)
      (same : responder.head = head) : { node with responder }.Vouches headers :=
    ⟨vouches.coherent, vouches.reported, same ▸ lies, vouches.headers⟩
  have mute (letter : Letter) (member : letter ∈ []) (header : Header)
      (_ : letter.message.header? = some header) : header.LiesOn node.ledger := nomatch member
  cases request with
  | status peer =>
    refine ⟨vouches, fun letter member header told => ?_⟩
    cases List.mem_singleton.mp member
    cases told
    exact vouches.head
  | sync peer asked =>
    simp only [Node.serve, Responder.handle, Responder.onSyncRequest]
    split
    next extension served =>
      refine ⟨vouches, fun letter member header told => ?_⟩
      cases List.mem_singleton.mp member
      cases told
    next unserved => exact ⟨vouches, mute⟩
  | ledgerUpdate header phase now =>
    have lies := vouches.headers header (heard header phase now rfl)
    simp only [Node.serve, Responder.handle, Responder.onLedgerUpdate]
    split
    next ahead =>
      split
      next quiet => exact ⟨refresh header lies _ rfl, mute⟩
      next announcing =>
        refine ⟨refresh header lies _ (Responder.head_tell ..), fun letter member other told => ?_⟩
        rw [Responder.message_of_tell member] at told
        cases told
        exact lies
    next known => exact ⟨vouches, mute⟩

end Node

namespace Cluster

/-- The headers that are on their way from a node to others. -/
def advertised (cluster : Cluster) (name : PeerId) : List Header :=
  cluster.agenda.filterMap fun entry => entry.event.advertised? name

def headers (cluster : Cluster) (name : PeerId) : List Header :=
  cluster.agenda.filterMap fun entry => entry.event.header? name

structure Accounts (name : PeerId) (headers : List Header) (cluster : Cluster) : Prop where
  known : cluster.headers name ⊆ headers
  vouches : ∀ node, cluster.node? name = some node →
    node.ledger.transactions.length < UInt64.size → node.Vouches headers

variable {cluster next : Cluster} {name target : PeerId} {headers : List Header}

theorem mem_headers {header : Header} : header ∈ cluster.headers name ↔
    ∃ entry ∈ cluster.timetable, entry.2.header? name = some header := by
  simp [Cluster.headers, timetable]

theorem Plans.mem_headers {planned : List (Nat × Event)} (plans : Plans cluster next planned)
    {header : Header} : header ∈ next.headers name ↔ header ∈ cluster.headers name ∨
      ∃ plan ∈ planned, plan.2.header? name = some header := by
  simp only [Cluster.mem_headers, plans.mem_timetable]
  grind

theorem header?_mail (malicious : PeerSet) (letter : Letter) :
    (mail malicious target letter).header? name =
      if target = name then letter.message.header? else none := by
  obtain ⟨peer, message⟩ := letter
  cases told : malicious.contains target <;> cases message <;>
    simp [mail, told, tamper, Event.header?, Event.advertised?, Message.header?]

theorem headers_conclude {outcome : Node.Outcome} {header : Header}
    (member : header ∈ (cluster.conclude target outcome).headers name) :
    (target = name ∧ header ∈ outcome.committed) ∨ header ∈ cluster.headers name := by
  rcases plans_conclude.mem_headers.mp member with old | ⟨plan, entered, told⟩
  · exact .inr old
  rcases List.mem_append.mp entered with sent | reported
  · obtain ⟨output, -, planned⟩ := List.mem_filterMap.mp sent
    obtain ⟨event, caused, rfl⟩ := Option.map_eq_some_iff.mp planned
    -- Of all that a node asks for, nothing carries a header.
    cases output <;> cases caused <;>
      simp [Event.header?, Event.advertised?, Message.header?] at told
  · obtain ⟨committed, held, rfl⟩ := List.mem_map.mp reported
    obtain ⟨same, rfl⟩ : target = name ∧ committed = header := by
      simpa [Event.header?] using told
    exact .inl ⟨same, held⟩

theorem headers_applyRequest {request : Responder.Request} {header : Header}
    (member : header ∈ (cluster.applyRequest target request).headers name) :
    (target = name ∧ ∃ node, cluster.node? target = some node ∧
      ∃ letter ∈ (node.serve request).2.1, letter.message.header? = some header) ∨
    header ∈ cluster.headers name := by
  rcases applyRequest_cases cluster target request with same | ⟨node, found, same⟩
  · exact .inr (same ▸ member)
  · rw [same] at member
    rcases (plans_foldl_post ..).mem_headers.mp member with old | ⟨plan, entered, told⟩
    · exact .inr old
    · obtain ⟨letter, posted, rfl⟩ := List.mem_map.mp entered
      rw [header?_mail, Option.ite_none_right_eq_some] at told
      exact .inl ⟨told.1, node, found, letter, posted, told.2⟩

/-! ## Events -/

theorem Accounts.applyInput (accounts : Accounts name headers cluster) {input : Input}
    (done : cluster.applyInput target input = .ok next) :
    ∃ more, headers ⊆ more ∧ Accounts name more next := by
  rcases applyInput_eq_ok done with ⟨-, rfl⟩ | ⟨node, outcome, found, step, rfl⟩
  · exact ⟨headers, List.Subset.refl _, accounts⟩
  by_cases here : target = name
  · subst here
    refine ⟨outcome.committed ++ headers, List.subset_append_right .., fun header member => ?_,
      fun later reached bounded => ?_⟩
    · rcases headers_conclude member with ⟨-, new⟩ | old
      · exact List.mem_append_left _ new
      · exact List.mem_append_right _ (accounts.known old)
    · rw [node?_conclude, found, Option.map_some, if_pos rfl] at reached
      cases reached
      have before := Nat.lt_of_le_of_lt (Node.prefix_of_handle step).length_le bounded
      have vouches := (accounts.vouches node found before).handle step bounded
      exact ⟨vouches.coherent, vouches.reported, vouches.head, vouches.headers⟩
  · refine ⟨headers, List.Subset.refl _, fun header member => ?_, fun later reached => ?_⟩
    · rcases headers_conclude member with ⟨same, -⟩ | old
      · exact absurd same here
      · exact accounts.known old
    · simp only [node?_conclude, here, if_false, Option.map_id'] at reached
      exact accounts.vouches later reached

theorem Accounts.applyRequest (accounts : Accounts name headers cluster) (target : PeerId)
    {request : Responder.Request} (heard : ∀ header phase now,
      request = .ledgerUpdate header phase now → target = name → header ∈ headers) :
    ∃ more, headers ⊆ more ∧ Accounts name more (cluster.applyRequest target request) := by
  by_cases here : target = name
  · subst here
    cases found : cluster.node? target with
    | none =>
      rw [applyRequest_of_missing found]
      exact ⟨headers, List.Subset.refl _, accounts⟩
    | some node =>
      let told := (node.serve request).2.1.filterMap fun letter => letter.message.header?
      refine ⟨told ++ headers, List.subset_append_right .., fun header member => ?_,
        fun later reached bounded => ?_⟩
      · rcases headers_applyRequest member with ⟨-, _, same, letter, posted, tells⟩ | old
        · cases found.symm.trans same
          exact List.mem_append_left _ (List.mem_filterMap.mpr ⟨letter, posted, tells⟩)
        · exact List.mem_append_right _ (accounts.known old)
      · rw [node?_applyRequest, found, Option.map_some, if_pos rfl] at reached
        cases reached
        have vouches := accounts.vouches node found bounded
        obtain ⟨served, letters⟩ := vouches.serve fun header phase now same =>
          heard header phase now same rfl
        refine ⟨served.coherent, served.reported, served.head, fun header member => ?_⟩
        rcases List.mem_append.mp member with new | old
        · obtain ⟨letter, posted, tells⟩ := List.mem_filterMap.mp new
          exact letters letter posted header tells
        · exact served.headers header old
  · refine ⟨headers, List.Subset.refl _, fun header member => ?_, fun later reached => ?_⟩
    · rcases headers_applyRequest member with ⟨same, -⟩ | old
      · exact absurd same here
      · exact accounts.known old
    · simp only [node?_applyRequest, here, if_false, Option.map_id'] at reached
      exact accounts.vouches later reached

theorem Processes.accounts {event : Event} (processes : Processes cluster event next)
    (accounts : Accounts name headers cluster)
    (told : ∀ header, event.header? name = some header → header ∈ headers) :
    ∃ more, Accounts name more next := by
  cases processes with
  | lost errand => exact ⟨headers, accounts⟩
  | @served sender receiver message request errand =>
    have asked (header : Header) (phase : PhaseKind) (now : Nat) :
        request ≠ .ledgerUpdate header phase now := by
      cases message <;> cases errand <;> nofun
    obtain ⟨more, -, after⟩ := accounts.applyRequest receiver
      fun header phase now same => absurd same (asked header phase now)
    exact ⟨more, after⟩
  | taken errand done =>
    obtain ⟨more, -, after⟩ := accounts.applyInput done
    exact ⟨more, after⟩
  | given done =>
    obtain ⟨more, -, after⟩ := accounts.applyInput done
    exact ⟨more, after⟩
  | @reported target header middle phase now heard =>
    obtain ⟨more, wider, between⟩ := accounts.applyInput heard
    have known (other : Header) (kind : PhaseKind) (time : Nat)
        (same : Responder.Request.ledgerUpdate header phase now = .ledgerUpdate other kind time)
        (here : target = name) : other ∈ more := by
      cases same
      exact wider (told header (if_pos here))
    obtain ⟨most, -, after⟩ := between.applyRequest target known
    exact ⟨most, after⟩

/-! ## Runs -/

theorem Accounts.mono (accounts : Accounts name headers cluster)
    (nodes : next.nodes = cluster.nodes) (less : next.headers name ⊆ headers) :
    Accounts name headers next := by
  refine ⟨less, fun node found => accounts.vouches node ?_⟩
  rw [node?, ← nodes]
  exact found

theorem accounts_of_step (accounts : Accounts name headers cluster)
    (done : cluster.step = .ok next) : ∃ more, Accounts name more next := by
  rcases step_eq_ok done with ⟨-, rfl⟩ | ⟨first, rest, agenda, done⟩
  · exact ⟨headers, accounts⟩
  · -- The first event is off the agenda by now, but its header was on its way before.
    have before : cluster.headers name = (first.event.header? name).toList ++
        rest.filterMap fun entry => entry.event.header? name := by
      rw [Cluster.headers, agenda, List.filterMap_cons]
      cases first.event.header? name <;> rfl
    have popped : Accounts name headers (cluster.pop first rest) :=
      accounts.mono rfl fun header member =>
        accounts.known (before ▸ List.mem_append_right _ member)
    refine (processes_of_process done).accounts popped fun header told => accounts.known ?_
    rw [before, told]
    exact List.mem_append_left _ List.mem_cons_self

theorem accounts_of_commitLocal (accounts : Accounts name headers cluster) {count : Nat}
    {header : Header} (done : cluster.commitLocal target count = .ok (header, next)) :
    ∃ more, Accounts name more next := by
  obtain ⟨node, ledger, found, room, appended, rfl⟩ := commitLocal_eq_ok done
  let placed := cluster.setNode target { node with ledger }
  have plans := Plans.schedule placed 0 (.ledgerUpdate target header)
  have nodes (later : Node)
      (reached : (placed.schedule 0 (.ledgerUpdate target header)).node? name = some later) :
      placed.node? name = some later := reached
  by_cases here : target = name
  · subst here
    refine ⟨header :: headers, fun other member => ?_, fun later reached bounded => ?_⟩
    · rcases plans.mem_headers.mp member with old | ⟨plan, entered, told⟩
      · exact List.mem_cons_of_mem _ (accounts.known old)
      · cases List.mem_singleton.mp entered
        rw [Event.header?, if_pos rfl] at told
        cases told
        exact List.mem_cons_self
    · have set := nodes later reached
      rw [node?_setNode, found, Option.map_some, if_pos rfl] at set
      cases set
      have kept := (Ledger.precedes_of_append appended).transactions
      have vouches := accounts.vouches node found (Nat.lt_of_le_of_lt kept.length_le bounded)
      have grown : ledger.Coherent := vouches.coherent.append (by simpa using room) appended
      obtain ⟨-, -, rfl⟩ := Ledger.append_eq_ok appended
      refine vouches.grow grown vouches.reported rfl kept fun other member => ?_
      rcases List.mem_cons.mp member with rfl | old
      · exact .inr grown.header_liesOn
      · exact .inl old
  · refine ⟨headers, fun other member => ?_, fun later reached => ?_⟩
    · rcases plans.mem_headers.mp member with old | ⟨plan, entered, told⟩
      · exact accounts.known old
      · cases List.mem_singleton.mp entered
        rw [Event.header?, if_neg here] at told
        cases told
    · have set := nodes later reached
      simp only [placed, node?_setNode, here, if_false, Option.map_id'] at set
      exact accounts.vouches later set

theorem accounts_start (settings : Settings) (versions : List Nat) :
    Accounts name [] (.start settings versions) := by
  refine ⟨nofun, fun node found bounded => ?_⟩
  obtain ⟨⟨version, position⟩, -, rfl⟩ := List.mem_map.mp (List.mem_of_getElem? found)
  have fits : version < UInt64.size := by
    simpa [Node.start, Ledger.transactions_generated] using bounded
  have coherent := Ledger.coherent_generated fits
  exact ⟨coherent, Ledger.unreported_generated version, coherent.header_liesOn, nofun⟩

section
variable {settings : Settings} {versions : List UInt64} {allowed : Input → Prop}

theorem Reached.accounts (reached : Reached settings versions allowed cluster) (name : PeerId) :
    ∃ headers, Accounts name headers cluster := by
  induction reached with
  | start => exact ⟨[], accounts_start settings _⟩
  | corrupt other _ ih =>
    obtain ⟨headers, accounts⟩ := ih
    exact ⟨headers, accounts.mono rfl accounts.known⟩
  | silence other _ ih =>
    obtain ⟨headers, accounts⟩ := ih
    exact ⟨headers, accounts.mono rfl accounts.known⟩
  | commitLocal _ done ih =>
    obtain ⟨headers, accounts⟩ := ih
    exact accounts_of_commitLocal accounts done
  | input other given _ fair ih =>
    obtain ⟨headers, accounts⟩ := ih
    refine ⟨headers, accounts.mono rfl fun header member => ?_⟩
    rcases (Plans.schedule ..).mem_headers.mp member with old | ⟨plan, entered, told⟩
    · exact accounts.known old
    · cases List.mem_singleton.mp entered
      cases told
  | step _ done ih =>
    obtain ⟨headers, accounts⟩ := ih
    exact accounts_of_step accounts done
  | elapse _ later ih =>
    obtain ⟨headers, accounts⟩ := ih
    exact ⟨headers, accounts.mono rfl accounts.known⟩

/-- Whatever happens to a cluster: the head of a responder and every header on its way from the node
to others lie on the history of the node's ledger. Whoever is below such a header, but on that
history as well, would be served from there up to the header or further. -/
theorem Reached.advertised_servable (reached : Reached settings versions allowed cluster)
    {node : Node} (found : cluster.node? name = some node)
    (bounded : node.ledger.transactions.length < UInt64.size) {header : Header}
    (advertised : header = node.responder.head ∨ header ∈ cluster.advertised name) :
    header.version ≤ node.ledger.version ∧
    node.ledger.accumulatorAt? header.version = some header.accumulator ∧
    ∀ start, start.version < header.version →
      node.ledger.accumulatorAt? start.version = some start.accumulator →
      ∃ extension, node.ledger.extensionFrom start = some extension ∧ extension.start = start ∧
        header.version ≤ extension.finish.version := by
  obtain ⟨headers, accounts⟩ := reached.accounts name
  have vouches := accounts.vouches node found bounded
  have lies : header.LiesOn node.ledger := by
    rcases advertised with rfl | sent
    · exact vouches.head
    · obtain ⟨entry, on, told⟩ := List.mem_filterMap.mp sent
      refine vouches.headers header (accounts.known (List.mem_filterMap.mpr ⟨entry, on, ?_⟩))
      cases event : entry.event <;> rw [event] at told
      · exact told
      · cases told
      · cases told
  refine ⟨lies.version, lies.accumulator, fun start below shared => ?_⟩
  have reaches := Version.le_iff.mp lies.version
  have behind : start.version < node.ledger.version :=
    Version.lt_iff.mpr (Nat.lt_of_lt_of_le (Version.lt_iff.mp below) reaches)
  obtain ⟨extension, served, starts, finish⟩ :=
    vouches.coherent.exists_extensionFrom behind shared
  exact ⟨extension, served, starts, finish ▸ lies.version⟩

end

/-- Node 1 has told of version 2 and commits a transaction of its own while the message is on its
way. What node 0 starts from is served up to version 3. -/
theorem advertised_servable_after_commit :
    ∃ cluster node header extension, Reached {} [0, 2] (fun _ => True) cluster ∧
      cluster.node? ⟨1⟩ = some node ∧ header ∈ cluster.advertised ⟨1⟩ ∧ header.version = ⟨2⟩ ∧
      node.ledger.version = ⟨3⟩ ∧
      node.ledger.extensionFrom (Ledger.generated 0).header = some extension ∧
      header.version ≤ extension.finish.version := by
  have evaluated : (play [.input ⟨0⟩ .checkDue, .step, .step, .commitLocal ⟨1⟩ 1]
      (.start {} ([0, 2].map UInt64.toNat))).toOption.bind (fun cluster =>
        (cluster.node? ⟨1⟩).map fun node => (cluster.advertised ⟨1⟩ |>.map (·.version),
          node.ledger.version, node.ledger.transactions.length, node.ledger.accumulatorAt? .zero)) =
      some ([⟨2⟩], ⟨3⟩, 3, some .zero) := by decide +kernel
  obtain ⟨cluster, node, played, found, seen⟩ := exists_of_play _ _
    (fun cluster node => (cluster.advertised ⟨1⟩ |>.map (·.version),
      node.ledger.version, node.ledger.transactions.length, node.ledger.accumulatorAt? .zero)) _
    evaluated
  simp only [Prod.mk.injEq] at seen
  obtain ⟨told, version, count, genesis⟩ := seen
  have reached : Reached {} [0, 2] (fun _ => True) cluster := Reached.start.play (by simp) played
  obtain ⟨header, sent, two⟩ := List.mem_map.mp (told ▸ List.mem_singleton.mpr rfl)
  have fits : node.ledger.transactions.length < UInt64.size := count ▸ by decide
  obtain ⟨-, -, servable⟩ := reached.advertised_servable found fits (.inr sent)
  obtain ⟨extension, served, -, reaches⟩ :=
    servable (Ledger.generated 0).header (two ▸ by decide) genesis
  exact ⟨cluster, node, header, extension, reached, found, sent, two, version, served, reaches⟩

end Cluster

end Catchup
