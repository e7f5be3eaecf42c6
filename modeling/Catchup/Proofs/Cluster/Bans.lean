import Catchup.Proofs.Cluster.Agreement
import Catchup.Proofs.Cluster.Forgery
import Catchup.Proofs.Synchronizer.Commit

/-! What a ban ends, and what it leaves on its way.

The peer is out of the directory, so it is sent no further request. A request that was on its way at
that moment can still lead to another ban, since a ban does not take back the request that is
pending and a response is matched by its sender alone. No forgery is accepted, unless two of the
strings that were hashed for the ledgers collide. -/

set_option autoImplicit false

namespace Catchup.Cluster

variable {cluster middle next later : Cluster} {node peer target : PeerId}

/-! ## Priorities -/

def prioritiesOf (cluster : Cluster) (node peer : PeerId) : Nat :=
  cluster.priorities.count ⟨node, peer⟩

/-- A ledger of the cluster holds a forged transaction. -/
def TakesForgery (cluster : Cluster) : Prop :=
  ∃ ledger ∈ cluster.ledgers, forgedTransaction ∈ ledger.transactions

/-- To prioritize a peer is to commit a response of it, and that goes into the ledger. -/
theorem priorities_of_applyInput {given : Input} (done : cluster.applyInput target given = .ok next)
    (forged : ∀ extension, target = node → given = .syncResponse peer extension →
      extension.Forged) :
    next.prioritiesOf node peer = cluster.prioritiesOf node peer ∨ TakesForgery next := by
  rcases applyInput_eq_ok done with ⟨-, rfl⟩ | ⟨held, outcome, found, step, rfl⟩
  · exact .inl rfl
  obtain ⟨bare, ledger, transition, after, outputs, -⟩ := Node.handle_eq_ok step
  rw [prioritiesOf, priorities_conclude, List.count_append, prioritiesOf, outputs]
  have none (spared : ⟨node, peer⟩ ∉ bare.outputs.filterMap (Output.priority? target)) :
      cluster.priorities.count ⟨node, peer⟩ +
          (bare.outputs.filterMap (Output.priority? target)).count ⟨node, peer⟩ =
        cluster.priorities.count ⟨node, peer⟩ := by
    rw [List.count_eq_zero.mpr spared, Nat.add_zero]
  rcases transition.commit_cases with
    ⟨-, nobody⟩ | ⟨pursuit, sender, extension, rfl, -, judged, -, prioritized⟩
  · left
    refine none fun member => ?_
    obtain ⟨output, given, same⟩ := List.mem_filterMap.mp member
    cases output with
    | prioritize other => exact nobody other given
    | sendStatusRequest | sendSyncRequest | schedule | ban => cases same
  · by_cases whom : target = node ∧ sender = peer
    · obtain ⟨rfl, rfl⟩ := whom
      right
      obtain ⟨-, -, committed⟩ := (Verification.decides_of_judge judged).accepted
      obtain ⟨-, -, -, stored⟩ :=
        Ledger.commit_eq_ok_iff.mp (Verification.committer_eq_ok_iff.mp committed)
      refine ⟨ledger.takeUnreported.2, ?_, ?_⟩
      · rw [ledgers_conclude, after]
        exact List.mem_set (List.getElem?_eq_some_iff.mp (getElem?_ledgers found)).1 _
      · rw [stored]
        exact List.mem_append_right _ (forged extension rfl rfl)
    · left
      refine none fun member => whom ?_
      rw [prioritized] at member
      simpa [Output.priority?, eq_comm] using member

theorem Processes.priorities {event : Event} (processes : Processes cluster event next)
    (fair : ∀ name given, event = .input name given → given.response? = none)
    (forged : ∀ extension, event.answer? node peer = some extension → extension.Forged) :
    next.prioritiesOf node peer = cluster.prioritiesOf node peer ∨ TakesForgery next := by
  have served (cluster : Cluster) (target : PeerId) (request : Responder.Request) :
      (cluster.applyRequest target request).prioritiesOf node peer =
        cluster.prioritiesOf node peer := by
    rw [prioritiesOf, priorities_applyRequest, prioritiesOf]
  cases processes with
  | lost errand => exact .inl rfl
  | served errand => exact .inl (served ..)
  | @taken sender receiver message given next errand done =>
    refine priorities_of_applyInput done ?_
    rintro extension rfl rfl
    refine forged extension ?_
    cases message <;> cases errand
    simp [Event.answer?]
  | @given name given next done =>
    refine priorities_of_applyInput done ?_
    rintro extension - rfl
    cases fair name _ rfl
  | reported phase now heard =>
    rw [served, TakesForgery, ledgers_applyRequest]
    exact priorities_of_applyInput heard fun extension _ same => by cases same

/-! ## Steps -/

theorem Advances.grows {flying : List (PeerId × Extension)}
    (advances : Advances flying cluster next) : Grows cluster next := by
  obtain ⟨-, new, -, effect⟩ := advances
  generalize ledgers : next.ledgers = changed, bans : next.bans = banned at effect
  cases effect with
  | quiet | served => exact grows_of_eq ledgers
  | reported held => exact grows_of_set held ledgers List.prefix_rfl
  | judged held flying decides =>
    exact grows_of_set held ledgers (Ledger.precedes_of_decides decides).transactions

theorem Agrees.collides (agrees : Agrees cluster) (takes : TakesForgery cluster) :
    Blake3.Collides cluster.hashed := by
  obtain ⟨ledger, held, forged⟩ := takes
  refine agrees.shared.resolve_left fun shared => ?_
  rw [shared ledger held] at forged
  exact forgedTransaction_not_mem_history _ forged

theorem Processes.bansOf_le {event : Event} (processes : Processes cluster event next) :
    cluster.bansOf node peer ≤ next.bansOf node peer := by
  have kept {cluster next : Cluster} {target : PeerId} {given : Input}
      (done : cluster.applyInput target given = .ok next) :
      cluster.bansOf node peer ≤ next.bansOf node peer := by
    rcases applyInput_eq_ok done with ⟨-, rfl⟩ | ⟨held, outcome, found, step, rfl⟩
    · exact Nat.le_refl _
    · exact bansOf_conclude .. ▸ Nat.le_add_right ..
  have served (cluster : Cluster) (target : PeerId) (request : Responder.Request) :
      (cluster.applyRequest target request).bansOf node peer = cluster.bansOf node peer := by
    rw [bansOf, bans_applyRequest, bansOf]
  cases processes with
  | lost errand => exact Nat.le_refl _
  | served errand => exact Nat.le_of_eq (served ..).symm
  | taken errand done => exact kept done
  | given done => exact kept done
  | reported phase now heard => exact (served ..).symm ▸ kept heard

section
variable {settings : Settings} {versions : List UInt64}

/-- What is known of a node and a peer at every moment. -/
structure Watched (settings : Settings) (versions : List UInt64) (node peer : PeerId)
    (cluster : Cluster) : Prop where
  reached : Reached settings versions (fun given => given.response? = none) cluster
  ordered : Ordered cluster
  trails : Trails node peer cluster
  excludes : 0 < cluster.bansOf node peer → Excludes node peer cluster
  tainted : 0 < cluster.bansOf node peer → Tainted node peer cluster

/-- What may have happened between a node and a peer from one moment to a later one. -/
structure Follows (node peer : PeerId) (cluster later : Cluster) : Prop where
  charges : Charges node peer 0 cluster later
  bans : cluster.bansOf node peer ≤ later.bansOf node peer
  grows : Grows cluster later
  requests : 0 < cluster.bansOf node peer →
    later.requestsTo node peer = cluster.requestsTo node peer
  priorities : 0 < cluster.bansOf node peer →
    later.prioritiesOf node peer = cluster.prioritiesOf node peer ∨ Blake3.Collides later.hashed

theorem Follows.refl (cluster : Cluster) : Follows node peer cluster cluster :=
  ⟨Charges.refl cluster, Nat.le_refl _, grows_of_eq rfl, fun _ => rfl, fun _ => .inl rfl⟩

theorem Grows.trans (grows : Grows cluster middle) (more : Grows middle next) :
    Grows cluster next := by
  intro ledger held
  obtain ⟨between, held, kept⟩ := grows ledger held
  obtain ⟨after, held, further⟩ := more between held
  exact ⟨after, held, kept.trans further⟩

theorem Follows.trans (follows : Follows node peer cluster middle)
    (more : Follows node peer middle next) : Follows node peer cluster next where
  charges := follows.charges.trans more.charges
  bans := Nat.le_trans follows.bans more.bans
  grows := follows.grows.trans more.grows
  requests banned := (more.requests (Nat.lt_of_lt_of_le banned follows.bans)).trans
    (follows.requests banned)
  priorities banned := by
    rcases more.priorities (Nat.lt_of_lt_of_le banned follows.bans) with same | collides
    · rcases follows.priorities banned with before | collides
      · exact .inl (same.trans before)
      · exact .inr (collides.mono more.grows.hashed)
    · exact .inr collides

theorem Watched.step (watched : Watched settings versions node peer cluster)
    (done : cluster.step = .ok next) :
    Watched settings versions node peer next ∧ Follows node peer cluster next := by
  have reached := watched.reached.step done
  have grows := (advances_of_step done).grows
  have ordered := watched.ordered.step done
  rcases step_eq_ok done with ⟨-, rfl⟩ | ⟨first, rest, agenda, done⟩
  · exact ⟨watched, Follows.refl next⟩
  let popped := cluster.pop first rest
  have processes : Processes popped first.event next := processes_of_process done
  have fair (name : PeerId) (given : Input) (same : first.event = .input name given) :
      given.response? = none :=
    watched.reached.given (fun timeout => by cases timeout <;> rfl) first
      (agenda ▸ List.mem_cons_self) name given same
  have sound : Sound popped := by
    refine watched.reached.sound.mono rfl rfl (fun response member => ?_) fun peer known => known
    obtain ⟨entry, on, brings⟩ := List.mem_filterMap.mp member
    exact List.mem_filterMap.mpr ⟨entry, agenda ▸ List.mem_cons_of_mem first on, brings⟩
  have arrives := trail_of_agenda node peer agenda
  have tainted (banned : 0 < popped.bansOf node peer) : Tainted node peer popped := by
    obtain ⟨malicious, forged⟩ := watched.tainted banned
    exact ⟨malicious, fun extension member =>
      forged extension (arrives ▸ List.mem_append_right _ member)⟩
  obtain ⟨trails, awaiting⟩ := watched.trails.pop watched.ordered agenda
  obtain ⟨trails, after⟩ :=
    processes.trails trails (watched.ordered.pop agenda) sound fair tainted awaiting
  -- The event counted as underway up to now, so it has paid for the ban that it may lead to.
  refine ⟨⟨reached, ordered, trails, processes.excludes watched.excludes, after⟩, ?_,
    processes.bansOf_le, grows, fun banned => processes.requestsTo (watched.excludes banned),
    fun banned => ?_⟩
  · have charges := processes.charges node peer fair
    have counted : cluster.underway node peer = popped.underway node peer +
        if first.event.isExchange node peer then 1 else 0 := underway_of_agenda agenda
    have bans : popped.bansOf node peer = cluster.bansOf node peer := rfl
    have requests : popped.requestsTo node peer = cluster.requestsTo node peer := rfl
    unfold Charges at charges ⊢
    omega
  · have forged (extension : Extension) (told : first.event.answer? node peer = some extension) :
        extension.Forged := (watched.tainted banned).forged extension (by simp [arrives, told])
    -- A forgery that is accepted is part of a ledger, and those agree short of a collision.
    exact (processes.priorities fair forged).imp_right reached.agrees.collides

/-- Nothing is exchanged, no one is banned or prioritized, and no directory changes. -/
structure Quiet (node peer : PeerId) (cluster next : Cluster) (planned : List (Nat × Event)) :
    Prop where
  plans : Plans cluster next planned
  mute : ∀ plan ∈ planned, plan.2.answer? node peer = none ∧
    plan.2.isExchange node peer = false
  malicious : cluster.malicious.contains peer = true → next.malicious.contains peer = true
  bans : next.bans = cluster.bans
  requests : next.requests = cluster.requests
  priorities : next.priorities = cluster.priorities
  directories : ∀ later, next.node? node = some later →
    ∃ held, cluster.node? node = some held ∧ later.directory = held.directory

theorem Watched.quiet {planned : List (Nat × Event)}
    (watched : Watched settings versions node peer cluster)
    (quiet : Quiet node peer cluster next planned) (grows : Grows cluster next)
    (reached : Reached settings versions (fun given => given.response? = none) next) :
    Watched settings versions node peer next ∧ Follows node peer cluster next := by
  obtain ⟨plans, mute, malicious, bans, requests, priorities, directories⟩ := quiet
  have unanswered : planned.filterMap (fun plan => plan.2.answer? node peer) = [] :=
    List.filterMap_eq_nil_iff.mpr fun plan member => (mute plan member).1
  obtain ⟨trails, arrives⟩ := watched.trails.of_plans watched.ordered plans malicious
    (fun plan member seen => absurd (mute plan member).1 seen)
    (fun extension member => by rw [unanswered] at member; cases member)
  rw [unanswered, List.append_nil] at arrives
  have banned : next.bansOf node peer = cluster.bansOf node peer := by rw [bansOf, bans, bansOf]
  have sent : next.requestsTo node peer = cluster.requestsTo node peer := by
    rw [requestsTo, requests, requestsTo]
  refine ⟨⟨reached, watched.ordered.plans plans, trails, fun positive => ?_, fun positive => ?_⟩,
    ?_, Nat.le_of_eq banned.symm, grows, fun _ => sent, fun _ => .inl ?_⟩
  · intro later held
    obtain ⟨before, found, same⟩ := directories later held
    rw [same]
    exact watched.excludes (banned ▸ positive) before found
  · obtain ⟨told, forged⟩ := watched.tainted (banned ▸ positive)
    exact ⟨malicious told, arrives ▸ forged⟩
  · have counted := plans.underway node peer
    have none : planned.countP (fun plan => plan.2.isExchange node peer) = 0 :=
      List.countP_eq_zero.mpr fun plan member => by simp [(mute plan member).2]
    unfold Charges
    omega
  · rw [prioritiesOf, priorities, prioritiesOf]

/-! ## Runs -/

theorem Watched.paced (cluster : Cluster) : Paced fun later =>
    Watched settings versions node peer later ∧ Follows node peer cluster later where
  step before done := by
    obtain ⟨watched, follows⟩ := before
    obtain ⟨after, more⟩ := watched.step done
    exact ⟨after, follows.trans more⟩
  elapse before now later := by
    obtain ⟨⟨reached, ordered, trails, excludes, tainted⟩, follows⟩ := before
    refine ⟨⟨reached.elapse later, ordered.elapse later, ⟨fun entry member seen => ?_, trails.kinds,
      trails.lasting⟩, excludes, fun banned => ?_⟩, ?_⟩
    · exact Nat.le_trans (trails.prompt entry member seen) (Nat.add_le_add_right now latency)
    · exact ⟨(tainted banned).malicious, (tainted banned).forged⟩
    · exact ⟨follows.charges, follows.bans, follows.grows, follows.requests, follows.priorities⟩

theorem Watched.perform {move : Move} (watched : Watched settings versions node peer cluster)
    (fair : ∀ name given, move = .input name given → given.response? = none)
    (done : cluster.perform move = .ok next) :
    Watched settings versions node peer next ∧ Follows node peer cluster next := by
  have reached := watched.reached.perform fair done
  have unchanged (held : Node) (found : cluster.node? node = some held) :
      ∃ before, cluster.node? node = some before ∧ held.directory = before.directory :=
    ⟨held, found, rfl⟩
  cases move with
  | corrupt name =>
    cases done
    have same : Plans cluster (cluster.corrupt name) [] := ⟨rfl, rfl⟩
    refine watched.quiet ⟨same, nofun, fun told => ?_, rfl, rfl, rfl, unchanged⟩
      (grows_of_eq rfl) reached
    exact PeerSet.contains_iff.mpr (PeerSet.mem_insert.mpr (.inr (PeerSet.contains_iff.mp told)))
  | silence name =>
    cases done
    have same : Plans cluster (cluster.silence name) [] := ⟨rfl, rfl⟩
    exact watched.quiet ⟨same, nofun, id, rfl, rfl, rfl, unchanged⟩ (grows_of_eq rfl) reached
  | commitLocal name count =>
    obtain ⟨⟨header, after⟩, committed, rfl⟩ := exists_of_map_eq_ok done
    obtain ⟨held, ledger, found, -, appended, rfl⟩ := commitLocal_eq_ok committed
    have plans := Plans.schedule (cluster.setNode name { held with ledger }) 0
      (.ledgerUpdate name header)
    refine watched.quiet ⟨⟨plans.now, plans.timetable⟩, fun plan member => ?_, id, rfl, rfl, rfl,
      fun later place => ?_⟩ ?_ reached
    · cases List.mem_singleton.mp member
      exact ⟨rfl, rfl⟩
    · have placed : (cluster.setNode name { held with ledger }).node? node = some later := place
      rw [node?_setNode, Option.map_eq_some_iff] at placed
      obtain ⟨before, known, rfl⟩ := placed
      refine ⟨before, known, ?_⟩
      split
      next here =>
        subst here
        cases found.symm.trans known
        rfl
      next => rfl
    · exact grows_of_set (getElem?_ledgers found) ledgers_setNode
        (Ledger.precedes_of_append appended).transactions
  | input name given =>
    cases done
    refine watched.quiet ⟨Plans.schedule cluster 0 (.input name given), fun plan member => ?_, id,
      rfl, rfl, rfl, unchanged⟩ (grows_of_eq rfl) reached
    cases List.mem_singleton.mp member
    exact ⟨rfl, rfl⟩
  | step => exact watched.step done
  | runFor duration =>
    exact (Watched.paced cluster).runUntil ⟨watched, Follows.refl cluster⟩
      (Nat.le_add_right ..) done

theorem watched_start (settings : Settings) (versions : List UInt64) (node peer : PeerId) :
    Watched settings versions node peer (.start settings (versions.map UInt64.toNat)) :=
  ⟨.start, ⟨.nil, nofun⟩, ⟨nofun, nofun, .nil⟩, nofun, nofun⟩

theorem Watched.play {moves : List Move} (watched : Watched settings versions node peer cluster)
    (fair : ∀ name given, .input name given ∈ moves → given.response? = none)
    (played : play moves cluster = .ok next) :
    Watched settings versions node peer next ∧ Follows node peer cluster next := by
  have kept (move : Move) (member : move ∈ moves) {middle next : Cluster}
      (before : Watched settings versions node peer middle ∧ Follows node peer cluster middle)
      (done : middle.perform move = .ok next) :
      Watched settings versions node peer next ∧ Follows node peer cluster next := by
    obtain ⟨after, follows⟩ := before.1.perform
      (fun name given same => fair name given (same ▸ member)) done
    exact ⟨after, before.2.trans follows⟩
  exact play_keeps kept ⟨watched, Follows.refl cluster⟩ played

/-- Whatever is done to a cluster, short of responses made up by no node: every ban of a peer by a
node answers a sync request of its own. Once there is such a ban, the peer stays out of the node's
directory and is sent no further request; what was underway at that moment, request or response, can
lead to one more ban each. The peer is never prioritized again, or two different strings that were
hashed for the ledgers have the same hash. -/
theorem bans_of_play {before after : List Move}
    (fair : ∀ name given, .input name given ∈ before ++ after → given.response? = none)
    (played : play before (.start settings (versions.map UInt64.toNat)) = .ok cluster)
    (more : play after cluster = .ok later) (node peer : PeerId) :
    later.bansOf node peer + later.underway node peer ≤ later.requestsTo node peer ∧
    (0 < cluster.bansOf node peer →
      (∀ held, later.node? node = some held → held.directory.contains peer = false) ∧
      later.requestsTo node peer = cluster.requestsTo node peer ∧
      later.bansOf node peer + later.underway node peer ≤
        cluster.bansOf node peer + cluster.underway node peer ∧
      (later.prioritiesOf node peer = cluster.prioritiesOf node peer ∨
        ∃ left ∈ later.hashed, ∃ right ∈ later.hashed,
          left ≠ right ∧ Blake3.hash left = Blake3.hash right)) := by
  obtain ⟨watched, first⟩ := (watched_start settings versions node peer).play
    (fun name given member => fair name given (List.mem_append_left _ member)) played
  obtain ⟨after, second⟩ := watched.play
    (fun name given member => fair name given (List.mem_append_right _ member)) more
  refine ⟨?_, fun banned => ⟨?_, second.requests banned, ?_, second.priorities banned⟩⟩
  · have charges : later.bansOf node peer + later.underway node peer + 0 ≤
        0 + 0 + later.requestsTo node peer + (0 + 0) := first.charges.trans second.charges
    omega
  · exact after.excludes (Nat.lt_of_lt_of_le banned second.bans)
  · have charges := second.charges
    have same := second.requests banned
    unfold Charges at charges
    omega

end

/-- Node 1 forges, and node 0 asks it twice before it hears of that. -/
def askTwice : List Move :=
  [.corrupt ⟨1⟩, .input ⟨0⟩ (.localRequest ⟨⟨1⟩, 0, 0, .zero⟩ [⟨1⟩]),
    .input ⟨0⟩ (.localRequest ⟨⟨1⟩, 0, 0, .zero⟩ [⟨1⟩])]

theorem fair_askTwice {name : PeerId} {given : Input} (member : .input name given ∈ askTwice) :
    given.response? = none := by
  obtain ⟨-, rfl⟩ : name = ⟨0⟩ ∧ given = .localRequest ⟨⟨1⟩, 0, 0, .zero⟩ [⟨1⟩] := by
    simpa [askTwice] using member
  rfl

/-- The first response of node 1 has been judged, and the second one is judged next. -/
theorem play_askTwice :
    ∃ cluster later, play (askTwice ++ List.replicate 5 .step) (.start {} [0, 1]) = .ok cluster ∧
      play [.step] cluster = .ok later ∧
      cluster.bansOf ⟨0⟩ ⟨1⟩ = 1 ∧ cluster.underway ⟨0⟩ ⟨1⟩ = 1 ∧
      later.bans.map (fun ban => (ban.node, ban.peer)) = [(⟨0⟩, ⟨1⟩), (⟨0⟩, ⟨1⟩)] := by
  have evaluated : ((play (askTwice ++ List.replicate 5 .step) (.start {} [0, 1])).bind
      fun cluster => (play [.step] cluster).map fun later =>
        (cluster.bansOf ⟨0⟩ ⟨1⟩, cluster.underway ⟨0⟩ ⟨1⟩,
          later.bans.map fun ban => (ban.node, ban.peer))) =
      .ok (1, 1, [(⟨0⟩, ⟨1⟩), (⟨0⟩, ⟨1⟩)]) := by decide +kernel
  obtain ⟨cluster, played, rest⟩ := exists_of_bind_eq_ok evaluated
  obtain ⟨later, more, seen⟩ := exists_of_map_eq_ok rest
  simp only [Prod.mk.injEq] at seen
  exact ⟨cluster, later, played, more, seen⟩

/-- Node 0 has banned node 1 once, and the response that is underway can lead to one more ban. -/
theorem bans_of_play_while_underway :
    ∃ cluster later, play (askTwice ++ List.replicate 5 .step) (.start {} [0, 1]) = .ok cluster ∧
      play [.step] cluster = .ok later ∧
      cluster.bansOf ⟨0⟩ ⟨1⟩ = 1 ∧ cluster.underway ⟨0⟩ ⟨1⟩ = 1 ∧
      later.bansOf ⟨0⟩ ⟨1⟩ ≤ 2 ∧ later.requestsTo ⟨0⟩ ⟨1⟩ = cluster.requestsTo ⟨0⟩ ⟨1⟩ ∧
      ∀ held, later.node? ⟨0⟩ = some held → held.directory.contains ⟨1⟩ = false := by
  obtain ⟨cluster, later, played, more, banned, underway, -⟩ := play_askTwice
  have fair (name : PeerId) (given : Input) (member : .input name given ∈
      (askTwice ++ List.replicate 5 .step) ++ [Move.step]) : given.response? = none := by
    have asked : .input name given ∈ askTwice := by simpa using member
    exact fair_askTwice asked
  obtain ⟨-, since⟩ := @bans_of_play cluster later {} [0, 1] _ _ fair played more ⟨0⟩ ⟨1⟩
  obtain ⟨excluded, requests, bans, -⟩ := since (banned ▸ Nat.one_pos)
  refine ⟨cluster, later, played, more, banned, underway, ?_, requests, excluded⟩
  rw [banned, underway] at bans
  exact Nat.le_trans (Nat.le_add_right ..) bans

/-- Both requests are answered before node 0 hears of the forgery, and it bans node 1 for each. -/
theorem banned_twice_while_underway :
    ∃ cluster later, play (askTwice ++ List.replicate 5 .step) (.start {} [0, 1]) = .ok cluster ∧
      play [.step] cluster = .ok later ∧
      later.bans.map (fun ban => (ban.node, ban.peer)) = [(⟨0⟩, ⟨1⟩), (⟨0⟩, ⟨1⟩)] := by
  obtain ⟨cluster, later, played, more, -, -, twice⟩ := play_askTwice
  exact ⟨cluster, later, played, more, twice⟩

end Catchup.Cluster
