import Catchup.Proofs.Cluster.CatchUp

/-! Where a status check of a newly started cluster leads to.

All nodes hold parts of one history, so the longest of these is where every node belongs, and
whoever is behind asks the first node that holds it. -/

set_option autoImplicit false

namespace Catchup

/-! ## Clusters as they are started -/

theorem Ledger.version_generated (version : UInt64) :
    (generated version.toNat).version = ⟨version⟩ := by
  have counted := (coherent_generated version.toNat_lt).version
  rw [transactions_generated, Transaction.length_history] at counted
  exact congrArg Version.mk (UInt64.toNat_inj.mp counted)

namespace Cluster

variable {versions : List UInt64} {name peer : PeerId} {node : Node} {version : UInt64}
  {position : Nat}

theorem toNat_nodeId (within : position < UInt64.size) :
    (nodeId position).number.toNat = position := UInt64.toNat_ofNat_of_lt' within

theorem toNat_nodeId_idxOf (count : versions.length < UInt64.size) (member : version ∈ versions) :
    (nodeId (versions.idxOf version)).number.toNat = versions.idxOf version :=
  toNat_nodeId (Nat.lt_trans (List.idxOf_lt_length_iff.mpr member) count)

theorem nodeId_toNat (name : PeerId) : nodeId name.number.toNat = name :=
  congrArg PeerId.mk UInt64.ofNat_toNat

/-- A node of a cluster with so many nodes. -/
def newNode (count : Nat) (name : PeerId) (version : UInt64) : Node :=
  .start {} (.generated version.toNat)
    (.ofList (((List.range count).map nodeId).filter (· ≠ name))) 0

theorem node?_start (versions : List UInt64) (name : PeerId) :
    (start {} (versions.map UInt64.toNat)).node? name =
      versions[name.number.toNat]?.map (newNode versions.length name) := by
  simp only [node?, start, List.getElem?_map, List.getElem?_zipIdx, Option.map_map, List.length_map]
  refine Option.map_congr fun version _ => ?_
  simp only [Function.comp_apply, Nat.zero_add, nodeId_toNat]
  rfl

theorem node?_start_eq_some :
    (start {} (versions.map UInt64.toNat)).node? name = some node ↔
      ∃ version, versions[name.number.toNat]? = some version ∧
        newNode versions.length name version = node := by
  rw [node?_start, Option.map_eq_some_iff]

theorem fresh_newNode (count : Nat) (name : PeerId) (version : UInt64) :
    (newNode count name version).Fresh := by
  have stored : (newNode count name version).ledger.transactions =
      Transaction.history version.toNat := Ledger.transactions_generated _
  refine ⟨rfl, rfl, Ledger.coherent_generated version.toNat_lt, ?_, Ledger.unreported_generated _⟩
  rw [stored, Transaction.length_history]

theorem fresh_start (count : versions.length < UInt64.size) :
    Fresh (start {} (versions.map UInt64.toNat)) where
  nodes name node found := by
    obtain ⟨version, -, rfl⟩ := node?_start_eq_some.mp found
    exact fresh_newNode ..
  acquainted name node found peer := by
    obtain ⟨version, -, rfl⟩ := node?_start_eq_some.mp found
    have present : (∃ other, (start {} (versions.map UInt64.toNat)).node? peer = some other) ↔
        peer.number.toNat < versions.length := by
      rw [node?_start, ← Option.isSome_iff_exists]
      simp
    -- The numbers of the nodes fit into 64 bits, so no two nodes share a name.
    have named : peer ∈ (List.range versions.length).map nodeId ↔
        peer.number.toNat < versions.length := by
      refine ⟨fun member => ?_, fun within => ?_⟩
      · obtain ⟨position, within, rfl⟩ := List.mem_map.mp member
        have small := List.mem_range.mp within
        rwa [toNat_nodeId (Nat.lt_trans small count)]
      · exact List.mem_map.mpr ⟨_, List.mem_range.mpr within, nodeId_toNat peer⟩
    rw [present]
    show peer ∈ (PeerSet.ofList _).toList ↔ _
    rw [PeerSet.mem_ofList, List.mem_filter, named, and_comm, decide_eq_true_iff]

theorem version_headOf_start (held : versions[name.number.toNat]? = some version) :
    ((start {} (versions.map UInt64.toNat)).headOf name).version = ⟨version⟩ := by
  rw [headOf_of_found (node?_start_eq_some.mpr ⟨version, held, rfl⟩)]
  exact Ledger.version_generated version

/-! ## Runs -/

/-- With nobody malicious nobody is banned. -/
theorem steady_faithful : Steady fun cluster => Sound cluster ∧ cluster.malicious = .empty where
  step before done := by
    have advances := advances_of_step done
    exact ⟨before.1.advances advances, advances.malicious.trans before.2⟩
  elapse before _ := ⟨before.1.mono rfl rfl (List.Subset.refl _) fun _ known => known, before.2⟩

theorem bans_eq_nil {cluster : Cluster} (sound : Sound cluster)
    (honest : cluster.malicious = .empty) : cluster.bans = [] := by
  refine List.eq_nil_iff_forall_not_mem.mpr fun ban member => ?_
  have known := sound.bans ban member
  rw [honest] at known
  cases known

theorem ordered_input (settings : Settings) (versions : List Nat) (name : PeerId) (given : Input) :
    Ordered ((start settings versions).input name given) :=
  ⟨List.pairwise_singleton .., fun _ _ => Nat.zero_le _⟩

theorem exists_settled (count : versions.length < UInt64.size)
    (held : versions[name.number.toNat]? = some version) :
    ∃ cluster best asked requested prioritized,
      ((start {} (versions.map UInt64.toNat)).input name .checkDue).runFor 1_000_000_000 =
        .ok cluster ∧
      Settles (start {} (versions.map UInt64.toNat)) name best asked ∧
      Rests name ((start {} (versions.map UInt64.toNat)).headOf best) asked asked cluster ∧
      Rests best ((start {} (versions.map UInt64.toNat)).headOf best) requested prioritized
        cluster := by
  have found := node?_start_eq_some.mpr ⟨version, held, rfl⟩
  have stands : Stands (start {} (versions.map UInt64.toNat)) name
      (newNode versions.length name version) [(0, .input name .checkDue)] [] []
      ((start {} (versions.map UInt64.toNat)).input name .checkDue) :=
    ⟨found, fun _ _ => rfl, rfl, rfl, rfl, rfl, rfl⟩
  obtain ⟨reached, done, stage, late⟩ := Proceeds.exists_runUntil
    (stage_proceeds (fresh_start count) found) (.due stands) (ordered_input {} _ name .checkDue)
  obtain ⟨best, asked, requested, prioritized, settles, rests, source⟩ := stage.settled_of_late late
  have since : ((start {} (versions.map UInt64.toNat)).input name .checkDue).now = 0 := rfl
  refine ⟨{ reached with now := 1_000_000_000 }, best, asked, requested, prioritized, ?_, settles,
    ⟨rests.node, rests.requests, rests.priorities⟩,
    ⟨source.node, source.requests, source.priorities⟩⟩
  rw [runFor, since, Nat.zero_add]
  exact done

/-! ## The best version -/

theorem exists_headOf_start (count : versions.length < UInt64.size) (member : version ∈ versions) :
    ((start {} (versions.map UInt64.toNat)).headOf (nodeId (versions.idxOf version))).version =
        ⟨version⟩ ∧
      ∃ node, (start {} (versions.map UInt64.toNat)).node? (nodeId (versions.idxOf version)) =
        some node := by
  have held : versions[(nodeId (versions.idxOf version)).number.toNat]? = some version := by
    rw [toNat_nodeId_idxOf count member]
    exact List.getElem?_idxOf member
  exact ⟨version_headOf_start held, _, node?_start_eq_some.mpr ⟨version, held, rfl⟩⟩

/-- The first node at the highest version is the one that is selected. -/
theorem Selects.eq_nodeId {chosen : PeerId} {top : UInt64} (count : versions.length < UInt64.size)
    (selects : Selects (start {} (versions.map UInt64.toNat)) name chosen)
    (held : versions[chosen.number.toNat]? = some top) : chosen = nodeId (versions.idxOf top) := by
  have member := List.mem_of_getElem? held
  obtain ⟨head, node, known⟩ := exists_headOf_start count member
  refine PeerId.ext_number (Nat.le_antisymm (Nat.not_lt.mp fun before => ?_)
    (Nat.not_lt.mp fun after => ?_))
  · have lower := selects.first _ node known (PeerId.lt_iff.mpr before)
    rw [head, version_headOf_start held] at lower
    exact Nat.lt_irrefl _ (Version.lt_iff.mp lower)
  · -- No earlier position holds the version, but that of the chosen node does.
    rw [toNat_nodeId_idxOf count member, List.idxOf] at after
    have other := List.not_of_lt_findIdx after
    rw [(List.getElem?_eq_some_iff.mp held).2, beq_self_eq_true] at other
    cases other

theorem Settles.exists_top {best : PeerId} {asked : List PeerId}
    (settles : Settles (start {} (versions.map UInt64.toNat)) name best asked)
    (count : versions.length < UInt64.size)
    (held : versions[name.number.toNat]? = some version) :
    ∃ top, (top ∈ versions ∧ ∀ other ∈ versions, other ≤ top) ∧
      ((start {} (versions.map UInt64.toNat)).headOf best).version = ⟨top⟩ ∧
      (version < top → best = nodeId (versions.idxOf top) ∧ asked = [best]) ∧
      (¬ version < top → asked = []) := by
  cases settles with
  | stays highest =>
    have head := version_headOf_start held
    refine ⟨version, ⟨List.mem_of_getElem? held, fun other member => ?_⟩, head, fun above => ?_,
      fun _ => rfl⟩
    · obtain ⟨given, node, known⟩ := exists_headOf_start count member
      have below := highest _ node known
      rwa [given, head] at below
    · exact absurd above (UInt64.lt_irrefl version)
  | moves selects =>
    obtain ⟨node, known⟩ := selects.known
    obtain ⟨top, last, -⟩ := node?_start_eq_some.mp known
    have head := version_headOf_start last
    refine ⟨top, ⟨List.mem_of_getElem? last, fun other member => ?_⟩, head,
      fun _ => ⟨selects.eq_nodeId count last, rfl⟩, fun notBelow => ?_⟩
    · obtain ⟨given, node, known⟩ := exists_headOf_start count member
      have below := selects.highest _ node known
      rwa [given, head] at below
    · have ahead := selects.ahead
      rw [version_headOf_start held, head] at ahead
      exact absurd ahead notBelow

/-- A status check brings a node up to the highest version in the cluster, at the cost of one sync
request to the first node that holds it, or of none if the node is there already. There are no more
nodes than 64 bits can number. -/
theorem reaches_best_of_check (count : versions.length < UInt64.size)
    (held : versions[position]? = some version) :
    ∃ cluster node top,
      ((start {} (versions.map UInt64.toNat)).input (nodeId position) .checkDue).runFor
        1_000_000_000 = .ok cluster ∧
      cluster.node? (nodeId position) = some node ∧ node.phaseKind = .idle ∧ cluster.bans = [] ∧
      (top ∈ versions ∧ ∀ other ∈ versions, other ≤ top) ∧ node.ledger.version = ⟨top⟩ ∧
      (version < top →
        cluster.requestedBy (nodeId position) = [nodeId (versions.idxOf top)] ∧
        cluster.prioritizedBy (nodeId position) = [nodeId (versions.idxOf top)] ∧
        ∃ best, cluster.node? (nodeId (versions.idxOf top)) = some best ∧
          node.ledger.header = best.ledger.header) ∧
      (¬ version < top → cluster.requestedBy (nodeId position) = []) := by
  have within : position < versions.length := (List.getElem?_eq_some_iff.mp held).1
  have present : versions[(nodeId position).number.toNat]? = some version := by
    rwa [toNat_nodeId (Nat.lt_trans within count)]
  obtain ⟨cluster, best, asked, requested, prioritized, done, settles, rests, source⟩ :=
    exists_settled count present
  obtain ⟨top, highest, head, moves, stays⟩ := settles.exists_top count present
  obtain ⟨⟨node, found, idle, ledger⟩, requests, priorities⟩ := rests
  obtain ⟨holder, there, -, same⟩ := source.node
  have asked : Reached {} versions (fun given => given.response? = none)
      ((start {} (versions.map UInt64.toNat)).input (nodeId position) .checkDue) :=
    Reached.start.input (nodeId position) .checkDue rfl
  have faithful := steady_faithful.runUntil ⟨asked.sound, rfl⟩ done
  refine ⟨cluster, node, top, done, found, congrArg Phase.kind idle,
    bans_eq_nil faithful.1 faithful.2, highest, ?_, fun below => ?_, fun reached => ?_⟩
  · exact (congrArg Header.version ledger).trans head
  · obtain ⟨first, once⟩ := moves below
    rw [requests, priorities, once, ← first]
    exact ⟨rfl, rfl, holder, there, ledger.trans same.symm⟩
  · rw [requests, stays reached]

/-- Nodes 1 and 3 are both at the highest version, and node 0 asks the former. -/
theorem reaches_best_among_four :
    ∃ cluster node,
      ((start {} [1, 3, 0, 3]).input (nodeId 0) .checkDue).runFor 1_000_000_000 = .ok cluster ∧
      cluster.node? (nodeId 0) = some node ∧ node.phaseKind = .idle ∧ cluster.bans = [] ∧
      node.ledger.version = ⟨3⟩ ∧ cluster.requestedBy (nodeId 0) = [nodeId 1] ∧
      cluster.prioritizedBy (nodeId 0) = [nodeId 1] := by
  have held : ([1, 3, 0, 3] : List UInt64)[0]? = some 1 := rfl
  obtain ⟨cluster, node, top, done, found, idle, nobody, ⟨member, highest⟩, reached, moves, -⟩ :=
    reaches_best_of_check (by decide) held
  have best : top = 3 := by
    have least := highest 3 (by decide)
    simp only [List.mem_cons, List.not_mem_nil, or_false] at member
    rcases member with rfl | rfl | rfl | rfl
    · exact absurd least (by decide)
    · rfl
    · exact absurd least (by decide)
    · rfl
  subst best
  obtain ⟨requests, priorities, -⟩ := moves (by decide)
  exact ⟨cluster, node, done, found, idle, nobody, reached, requests, priorities⟩

end Cluster

end Catchup
