import Catchup.Proofs.Synchronizer.Requests
import Catchup.Proofs.Synchronizer.Turns

/-! Whom a node asks when a request has timed out.

The queue is moved past the peer that has not answered, and the first candidate is asked that is
still connected. Where candidates are distinct this is somebody else, if there is anybody else. A
local request may name a peer more than once, though, and a peer has as many turns as places in the
queue: the queue is moved past one place only, and the next one may be of the same peer. -/

set_option autoImplicit false

namespace Catchup

section
variable {keep : PeerId → Bool} {peers : List PeerId} {peer other : PeerId}

/-- A peer that is found before another one and stands at the end too stands there twice. -/
theorem two_le_count_of_find? (found : peers.find? keep = some peer) (held : other ∈ peers)
    (kept : keep other = true) (different : other ≠ peer) (last : peers.getLast? = some peer) :
    2 ≤ peers.count peer := by
  obtain ⟨-, gone, later, rfl, refused⟩ := List.find?_eq_some_iff_append.mp found
  have behind : other ∈ later := by
    rcases List.mem_append.mp held with before | here
    · have dropped := refused other before
      rw [kept] at dropped
      cases dropped
    · exact (List.mem_cons.mp here).resolve_left different
  have again : peer ∈ later := by
    obtain ⟨first, rest, rfl⟩ := List.exists_cons_of_ne_nil (List.ne_nil_of_mem behind)
    rw [List.getLast?_append_of_ne_nil _ (by simp), List.getLast?_cons_cons] at last
    exact List.mem_of_getLast? last
  have once := List.count_pos_iff.mpr again
  rw [List.count_append, List.count_cons_self]
  omega

/-- If the next to be served is the very peer that the queue has been moved past, then it stands
there three times, or twice behind one that is not kept. -/
theorem Candidates.repeats_of_rotatePast {queue : Candidates}
    (found : (queue.rotatePast peer).2.peers.find? keep = some peer) (held : other ∈ queue.peers)
    (kept : keep other = true) (different : other ≠ peer)
    (last : queue.peers.getLast? = some peer) :
    3 ≤ queue.peers.count peer ∨
      2 ≤ queue.peers.count peer ∧ ∃ first, queue.front? = some first ∧ keep first = false := by
  obtain ⟨peers⟩ := queue
  obtain ⟨first, rest, rfl⟩ := List.exists_cons_of_ne_nil (List.ne_nil_of_mem held)
  by_cases front : first = peer
  · subst front
    have behind : other ∈ rest := (List.mem_cons.mp held).resolve_left different
    have ends : rest.getLast? = some first := by
      obtain ⟨second, rest, rfl⟩ := List.exists_cons_of_ne_nil (List.ne_nil_of_mem behind)
      rwa [List.getLast?_cons_cons] at last
    have moved : (rotatePast ⟨first :: rest⟩ first).2.peers = rest ++ [first] := by
      simp [rotatePast, front?]
    -- The other one is found at the latest, before the place that has moved to the back.
    have sooner : rest.find? keep = some first := by
      rw [moved, List.find?_append] at found
      cases early : rest.find? keep with
      | none => exact absurd kept (List.find?_eq_none.mp early other behind)
      | some earliest => rwa [early] at found
    have twice := two_le_count_of_find? sooner behind kept different ends
    left
    rw [List.count_cons_self]
    omega
  · have unmoved : (rotatePast ⟨first :: rest⟩ peer).2 = ⟨first :: rest⟩ := by
      simp [rotatePast, front?, front]
    rw [unmoved] at found
    refine .inr ⟨two_le_count_of_find? found held kept different last, first, rfl, ?_⟩
    refine Bool.eq_false_iff.mpr fun stays => front ?_
    rw [List.find?_cons_of_pos stays] at found
    exact Option.some.inj found

end

namespace Synchronizer

variable {σ : Type}

/-! ## Distinct candidates -/

/-- No peer is queued twice, and none has answered twice. -/
structure Distinct (synchronizer : Synchronizer) : Prop where
  candidates : ∀ pursuit, synchronizer.phase = .syncing pursuit → pursuit.candidates.peers.Nodup
  answers : ∀ check, synchronizer.phase = .checking check → (check.answers.map Prod.fst).Nodup

section
variable {judge : Judge σ} {directory : Directory} {store after : σ} {before : Synchronizer}
  {input : Input} {bare : Reaction} {asked : List PeerId} {check : StatusCheck}

theorem Distinct.of_idle {synchronizer : Synchronizer} {head : Header}
    (phase : synchronizer.phase = .idle head) : Distinct synchronizer :=
  ⟨by simp [phase], by simp [phase]⟩

theorem Distinct.of_checking {synchronizer : Synchronizer}
    (phase : synchronizer.phase = .checking check)
    (answers : (check.answers.map Prod.fst).Nodup) : Distinct synchronizer := by
  refine ⟨by simp [phase], fun other same => ?_⟩
  cases phase.symm.trans same
  exact answers

theorem Distinct.of_syncing {synchronizer : Synchronizer} {pursuit : Pursuit}
    (phase : synchronizer.phase = .syncing pursuit)
    (candidates : pursuit.candidates.peers.Nodup) : Distinct synchronizer := by
  refine ⟨fun other same => ?_, by simp [phase]⟩
  cases phase.symm.trans same
  exact candidates

/-- Only a peer that has not answered yet is recorded. -/
theorem Awaits.nodup_record {lastCheck : UInt64} {peer : PeerId} {header : Header}
    (awaits : Awaits lastCheck asked check) (answers : (check.answers.map Prod.fst).Nodup)
    (waiting : check.isWaitingFor peer = true) :
    ((check.record peer header).answers.map Prod.fst).Nodup := by
  have unheard := awaits.apart peer (StatusCheck.isWaitingFor_iff.mp waiting)
  rw [StatusCheck.record_of_waiting waiting, List.map_append]
  exact answers.append (List.nodup_singleton peer) (List.disjoint_singleton.mpr unheard)

theorem Closes.nodup_answers (closes : Closes before input check) (sound : Sound asked before)
    (distinct : Distinct before) : (check.answers.map Prod.fst).Nodup := by
  cases closes with
  | lastAnswer phase waiting complete =>
    exact (sound.awaiting _ phase).nodup_record (distinct.answers _ phase) waiting
  | window phase => exact distinct.answers _ phase

theorem nodup_candidates_found {chosen : PeerId} {target : Header}
    (answers : (check.answers.map Prod.fst).Nodup) :
    (found check chosen target).candidates.peers.Nodup := by
  have listed : (check.peersAt target.version).Nodup :=
    (List.filter_sublist.map Prod.fst).nodup answers
  exact List.nodup_cons.mpr ⟨by simp, listed.filter _⟩

/-- A pursuit goes on with distinct candidates, unless a local request has named one twice. -/
theorem Resumes.nodup {pursuit : Pursuit} {metrics : List Metric}
    (resumes : Resumes directory before input pursuit metrics) (sound : Sound asked before)
    (distinct : Distinct before)
    (own : ∀ target peers, input = .localRequest target peers → peers.Nodup) :
    pursuit.candidates.peers.Nodup := by
  cases resumes with
  | check closes finds => exact nodup_candidates_found (closes.nodup_answers sound distinct)
  | timeout phase out =>
    exact (Candidates.perm_rotatePast _ _).nodup_iff.mpr (distinct.candidates _ phase)
  | ledgerUpdate phase ahead | overdue phase late =>
    have kept := distinct.candidates _ phase
    exact kept
  | advertised phase known ahead => exact List.nodup_singleton _
  | raised phase known ahead => exact Candidates.nodup_insert (distinct.candidates _ phase) _
  | requested ahead => exact own _ _ rfl

theorem Transition.distinct
    (transition : Transition judge directory store before input bare after)
    (sound : Sound asked before) (distinct : Distinct before)
    (own : ∀ target peers, input = .localRequest target peers → peers.Nodup) :
    Distinct bare.synchronizer := by
  cases transition with
  | ignored | unsolicited | malicious => exact distinct
  | unasked phase window => exact .of_idle phase
  | checkStarted phase window somebody counted => exact .of_checking rfl List.nodup_nil
  | answered phase waiting incomplete =>
    exact .of_checking rfl
      ((sound.awaiting _ phase).nodup_record (distinct.answers _ phase) waiting)
  | checkClosed closes nothing => exact .of_idle rfl
  | resumed resumes pursues =>
    refine ⟨fun next reached => ?_, fun check reached => ?_⟩
    · exact pursues.nodup reached (resumes.nodup sound distinct own)
    · cases pursues <;> cases reached
  | accepted phase verdict =>
    have kept := distinct.candidates _ phase
    exact .of_syncing rfl kept
  | @adopted header other ahead =>
    cases phase : before.phase with
    | idle head => exact .of_idle rfl
    | checking check => exact .of_checking rfl (distinct.answers check phase)
    | syncing pursuit => exact absurd (by rw [phase]; rfl) other
  | satisfied reached => exact .of_idle rfl

end

section
variable {settings : Settings} {head : Header} {judge : Judge σ} {history : History σ}
  {synchronizer : Synchronizer} {pursuit : Pursuit} {peer other : PeerId} {id : RequestId}

theorem Run.distinct (run : Run settings head judge history synchronizer)
    (own : ∀ target peers, .localRequest target peers ∈ history.inputs → peers.Nodup) :
    Distinct synchronizer := by
  revert own
  refine run.keeps (fun _ => .of_idle rfl) ?_
  intro history before record bare earlier ih transition _ own
  have sooner : Distinct before :=
    ih fun target peers member => own target peers (List.mem_cons_of_mem _ member)
  refine transition.distinct earlier.sound sooner fun target peers same => ?_
  exact own target peers (same ▸ List.mem_cons_self)

/-! ## Timeouts -/

/-- The request that follows a timeout goes to the first connected candidate, once the queue has
been moved past the peer that has not answered. -/
theorem Run.asks_after_timeout (run : Run settings head judge history synchronizer)
    (phase : synchronizer.phase = .syncing pursuit) (out : pursuit.pending = some ⟨peer, id⟩)
    {directory : Directory} {store after : σ} {reaction : Reaction}
    (held : other ∈ pursuit.candidates.peers) (known : directory.has other = true)
    (done : synchronizer.handle judge directory store (.requestTimedOut peer id) =
      .ok (reaction, after)) :
    ∃ asked request,
      reaction.outputs = [.sendSyncRequest asked request,
        .schedule (.request asked request.id) settings.requestTimeout] ∧
      (pursuit.candidates.rotatePast peer).2.peers.find? directory.has = some asked := by
  have short := Version.lt_iff.mp (run.sound.behind pursuit phase)
  have resumes : Resumes directory synchronizer (.requestTimedOut peer id) _ _ := .timeout phase out
  have waits : other ∈ (pursuit.candidates.rotatePast peer).2.peers.filter directory.has :=
    List.mem_filter.mpr ⟨(Candidates.perm_rotatePast _ _).mem_iff.mpr held, known⟩
  have behind : ¬ pursuit.target.version ≤ pursuit.head.version := fun reached =>
    Nat.not_le.mpr short (Version.le_iff.mp reached)
  obtain ⟨asked, request, sent⟩ := exists_sent_of_calls
    ⟨_, _, resumes, decide_eq_false behind, rfl, List.ne_nil_of_mem waits⟩ done
  obtain ⟨bare, transition, rfl⟩ := transition_of_handle done
  obtain ⟨outputs, -⟩ := transition.sends sent
  obtain ⟨freed, metrics, rest, -, goesOn, front, -⟩ := transition.sends_request sent
  refine ⟨asked, request, run.settings_eq ▸ outputs, ?_⟩
  cases goesOn with
  | check closes finds => cases closes
  | timeout same still =>
    cases phase.symm.trans same
    have first := congrArg List.head? front
    rwa [available, List.head?_filter] at first

/-- Only the number of the next request can keep a timeout from being handled. -/
theorem Run.sent_of_timeout_failed (run : Run settings head judge history synchronizer)
    {directory : Directory} {store : σ} {fault : Fault}
    (failed : synchronizer.handle judge directory store (.requestTimedOut peer id) =
      .error fault) : history.requestsSent + 2 = UInt64.size := by
  rcases handle_cases judge directory store synchronizer (.requestTimedOut peer id) with
    ⟨bare, after, -, done⟩ | ⟨cause, overflows, -⟩
  · cases done.symm.trans failed
  · cases overflows with
    | request resumes asks full =>
      have numbered := run.nextRequest
      have last := (RequestId.next_eq_error_iff.mp full).2
      omega

/-- When a request has timed out while another candidate is connected, then the first connected
candidate behind the peer that has not answered is asked, unless the numbers of requests are used
up. It is that same peer only if this was queued three times, or twice with one in front that has
left; and never if the local requests have named no peer twice. -/
theorem Run.asks_another (run : Run settings head judge history synchronizer)
    (phase : synchronizer.phase = .syncing pursuit) (out : pursuit.pending = some ⟨peer, id⟩)
    (directory : Directory) (store : σ) (held : other ∈ pursuit.candidates.peers)
    (different : other ≠ peer) (known : directory.has other = true) :
    (∀ fault, synchronizer.handle judge directory store (.requestTimedOut peer id) =
      .error fault → history.requestsSent + 2 = UInt64.size) ∧
    ∀ reaction after,
      synchronizer.handle judge directory store (.requestTimedOut peer id) =
        .ok (reaction, after) →
      ∃ asked request,
        reaction.outputs = [.sendSyncRequest asked request,
          .schedule (.request asked request.id) settings.requestTimeout] ∧
        (pursuit.candidates.rotatePast peer).2.peers.find? directory.has = some asked ∧
        (asked = peer → 3 ≤ pursuit.candidates.peers.count peer ∨
          2 ≤ pursuit.candidates.peers.count peer ∧
            ∃ first, pursuit.candidates.front? = some first ∧ directory.has first = false) ∧
        ((∀ target peers, .localRequest target peers ∈ history.inputs → peers.Nodup) →
          asked ≠ peer) := by
  refine ⟨fun fault failed => run.sent_of_timeout_failed failed, fun reaction after done => ?_⟩
  obtain ⟨asked, request, outputs, found⟩ := run.asks_after_timeout phase out held known done
  have last := (run.sound.tracked pursuit phase _ out).last
  have repeats (same : asked = peer) :=
    Candidates.repeats_of_rotatePast (same ▸ found) held known different last
  refine ⟨asked, request, outputs, found, repeats, fun own same => ?_⟩
  have once := List.nodup_iff_count_le_one.mp ((run.distinct own).candidates pursuit phase) peer
  rcases repeats same with thrice | ⟨twice, -⟩ <;> omega

end

/-- Peer 1 has been asked for version 5, the first of those that a local request has named. -/
def askedFirstOf (peers : List PeerId) : List (Directory × Input) :=
  [(PeerSet.ofList [⟨1⟩, ⟨2⟩, ⟨3⟩], .localRequest ⟨⟨5⟩, 0, 0, .zero⟩ peers)]

/-- Peer 3 comes next. When it has left, peer 2 is asked. -/
theorem asks_another_after_departure :
    ∃ (history : History (List Verdict)) (synchronizer : Synchronizer) (pursuit : Pursuit)
      (reaction : Reaction) (asked : PeerId) (request : SyncRequest),
      Run {} .genesis Verification.rehearsed history synchronizer ∧
      synchronizer.phase = .syncing pursuit ∧ pursuit.pending = some ⟨⟨1⟩, ⟨1⟩⟩ ∧
      pursuit.candidates.peers = [⟨3⟩, ⟨2⟩, ⟨1⟩] ∧
      synchronizer.handle Verification.rehearsed (PeerSet.ofList [⟨1⟩, ⟨2⟩]) []
        (.requestTimedOut ⟨1⟩ ⟨1⟩) = .ok (reaction, []) ∧
      .sendSyncRequest asked request ∈ reaction.outputs ∧ asked ≠ ⟨1⟩ := by
  have run : Run {} .genesis Verification.rehearsed _ _ :=
    Run.start.replay (askedFirstOf [⟨1⟩, ⟨3⟩, ⟨2⟩]) [] rfl
  obtain ⟨-, step⟩ := run.asks_another rfl rfl (PeerSet.ofList [⟨1⟩, ⟨2⟩]) []
    (show ⟨2⟩ ∈ _ by decide) (by decide) (by decide)
  obtain ⟨asked, request, outputs, -, -, another⟩ := step _ _ rfl
  refine ⟨_, _, _, _, asked, request, run, rfl, rfl, rfl, rfl, ?_, another ?_⟩
  · rw [outputs]
    exact List.mem_cons_self
  · intro target peers member
    cases List.mem_singleton.mp member
    decide

/-- After a local request that has named these peers, the request to peer 1 times out and peer 1 is
asked again, although peer 2 is a connected candidate. -/
def AsksTwice (peers : List PeerId) (directory : Directory) : Prop :=
  ∃ (history : History (List Verdict)) (synchronizer : Synchronizer) (pursuit : Pursuit)
    (reaction : Reaction),
    Run {} .genesis Verification.rehearsed history synchronizer ∧
    history.inputs = [.localRequest ⟨⟨5⟩, 0, 0, .zero⟩ peers] ∧
    synchronizer.phase = .syncing pursuit ∧ pursuit.pending = some ⟨⟨1⟩, ⟨1⟩⟩ ∧
    ⟨2⟩ ∈ pursuit.candidates.peers ∧ directory.has ⟨2⟩ = true ∧
    synchronizer.handle Verification.rehearsed directory [] (.requestTimedOut ⟨1⟩ ⟨1⟩) =
      .ok (reaction, []) ∧
    reaction.outputs = [.sendSyncRequest ⟨1⟩ ⟨.genesis, ⟨2⟩⟩,
      .schedule (.request ⟨1⟩ ⟨2⟩) 5_000_000_000]

/-- It has been named again behind one that has left, or right behind itself. -/
theorem asks_twice_if_named_again :
    AsksTwice [⟨1⟩, ⟨3⟩, ⟨1⟩, ⟨2⟩] (PeerSet.ofList [⟨1⟩, ⟨2⟩]) ∧
      AsksTwice [⟨1⟩, ⟨1⟩, ⟨1⟩, ⟨2⟩] (PeerSet.ofList [⟨1⟩, ⟨2⟩]) :=
  ⟨⟨_, _, _, _, Run.start.replay (askedFirstOf [⟨1⟩, ⟨3⟩, ⟨1⟩, ⟨2⟩]) [] rfl,
      rfl, rfl, rfl, by decide, by decide, rfl, rfl⟩,
    ⟨_, _, _, _, Run.start.replay (askedFirstOf [⟨1⟩, ⟨1⟩, ⟨1⟩, ⟨2⟩]) [] rfl,
      rfl, rfl, rfl, by decide, by decide, rfl, rfl⟩⟩

end Synchronizer

end Catchup
