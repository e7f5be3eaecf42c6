import Catchup.Proofs.Synchronizer.Invariant
import Catchup.Proofs.Synchronizer.PeerControl

/-! The sync requests of a run.

A fresh pursuit, a timeout, a report, an overdue commit, a raised target and a finished check all
come to the same point, where the next candidate is asked. So all requests are of one form, and one
counter numbers them without a gap. -/

set_option autoImplicit false

namespace Catchup

/-- The sync request that an output sends, with the peer that it goes to. -/
def Output.syncRequest? : Output → Option (PeerId × SyncRequest)
  | .sendSyncRequest peer request => some (peer, request)
  | _ => none

theorem Output.syncRequest?_eq_some_iff {output : Output} {peer : PeerId} {request : SyncRequest} :
    output.syncRequest? = some (peer, request) ↔ output = .sendSyncRequest peer request := by
  cases output <;> simp [syncRequest?]

theorem Output.isSome_syncRequest? (output : Output) :
    output.syncRequest?.isSome = output.isRequest := by
  cases output <;> rfl

namespace Synchronizer

variable {σ : Type}

/-- The sync requests that have gone out, the first one first. -/
def History.sent : History σ → List (PeerId × SyncRequest)
  | [] => []
  | record :: earlier => sent earlier ++ record.reaction.outputs.filterMap Output.syncRequest?

/-- A step that sends one request and sets its timer. The request starts at the head, goes to a
connected peer, and is then the only one that is out. -/
structure Sends (settings : Settings) (directory : Directory) (before : Synchronizer)
    (input : Input) (reaction : Reaction) (peer : PeerId) (request : SyncRequest) : Prop where
  outputs : reaction.outputs = [.sendSyncRequest peer request,
    .schedule (.request peer request.id) settings.requestTimeout]
  connected : directory.has peer = true
  current : request.after = reaction.synchronizer.head
  pending : ∃ pursuit, reaction.synchronizer.phase = .syncing pursuit ∧
    pursuit.pending = some ⟨peer, request.id⟩ ∧ request.after.version < pursuit.target.version
  /-- Only a local request goes over one that is out. -/
  free : before.phase.pending? = none ∨
    (∃ overdue, before.phase.pending? = some overdue ∧
      input = .requestTimedOut overdue.peer overdue.id) ∨
    ∃ target peers, input = .localRequest target peers

/-! ## Steps -/

section
variable {judge : Judge σ} {directory : Directory} {store after : σ} {before : Synchronizer}
  {input : Input} {bare : Reaction} {peer : PeerId} {request : SyncRequest}

theorem Pursues.settings {pursuit : Pursuit} (pursues : Pursues directory before pursuit bare) :
    bare.synchronizer.settings = before.settings := by
  cases pursues <;> rfl

theorem Transition.settings
    (transition : Transition judge directory store before input bare after) :
    bare.synchronizer.settings = before.settings := by
  cases transition with
  | resumed resumes pursues => exact pursues.settings
  | ignored | unasked | checkStarted | answered | checkClosed | unsolicited | malicious | accepted
  | adopted | satisfied => rfl

/-- Where nothing is out when a pursuit goes on, nothing was out before, or it has just timed out,
or it belongs to a pursuit that a local request has replaced. -/
theorem Resumes.was_free {pursuit : Pursuit} {metrics : List Metric}
    (resumes : Resumes directory before input pursuit metrics) (free : pursuit.pending = none) :
    before.phase.pending? = none ∨
      (∃ overdue, before.phase.pending? = some overdue ∧
        input = .requestTimedOut overdue.peer overdue.id) ∨
      ∃ target peers, input = .localRequest target peers := by
  have kept {earlier : Pursuit} (phase : before.phase = .syncing earlier)
      (out : earlier.pending = none) : before.phase.pending? = none := by
    rw [phase]
    exact out
  cases resumes with
  | check closes finds =>
    left
    cases closes with
    | lastAnswer phase | window phase => rw [phase]; rfl
  | timeout phase out => exact .inr (.inl ⟨_, Phase.pending?_eq_some_iff.mpr ⟨_, phase, out⟩, rfl⟩)
  | ledgerUpdate phase ahead => exact .inl (kept phase free)
  | overdue phase late => exact .inl (kept phase free)
  | advertised phase known ahead => left; rw [phase]; rfl
  | raised phase known ahead => exact .inl (kept phase free)
  | requested ahead => exact .inr (.inr ⟨_, _, rfl⟩)

theorem Transition.sends (transition : Transition judge directory store before input bare after)
    (sent : .sendSyncRequest peer request ∈ bare.outputs) :
    Sends before.settings directory before input bare peer request := by
  obtain ⟨pursuit, _, rest, _, resumes, found, -, asks, rfl, rfl⟩ := transition.sends_request sent
  have front : peer ∈ available directory pursuit := found ▸ List.mem_cons_self
  exact {
    outputs := rfl
    connected := (List.mem_filter.mp front).2
    current := rfl
    pending := ⟨_, rfl, rfl, lt_target_of_isSynced_eq_false asks.behind⟩
    free := resumes.was_free asks.free }

/-- The requests of a step: none, or one with the number that is next. -/
theorem Transition.sent_cases
    (transition : Transition judge directory store before input bare after) :
    bare.outputs.filterMap Output.syncRequest? = [] ∨ ∃ peer request,
      .sendSyncRequest peer request ∈ bare.outputs ∧ request.id = before.nextRequest ∧
      bare.outputs.filterMap Output.syncRequest? = [(peer, request)] := by
  cases sent : bare.outputs.filterMap Output.syncRequest? with
  | nil => exact .inl rfl
  | cons first rest =>
    obtain ⟨peer, request⟩ := first
    obtain ⟨output, given, same⟩ := List.mem_filterMap.mp (sent ▸ List.mem_cons_self :
      (peer, request) ∈ bare.outputs.filterMap Output.syncRequest?)
    rw [Output.syncRequest?_eq_some_iff] at same
    subst same
    -- The first request of a step comes with its timer and nothing else.
    have whole : bare.outputs.filterMap Output.syncRequest? = [(peer, request)] := by
      rw [(transition.sends given).outputs]
      rfl
    obtain ⟨pursuit, _, _, _, -, -, -, -, numbered, -⟩ := transition.sends_request given
    exact .inr ⟨peer, request, given, numbered ▸ rfl, sent ▸ whole⟩

/-- A request goes out whenever a pursuit goes on that is behind, waits for nothing and has someone
to ask. -/
theorem exists_sent_of_calls (calls : CallsForRequest directory before input)
    {reaction : Reaction}
    (done : before.handle judge directory store input = .ok (reaction, after)) :
    ∃ peer request, .sendSyncRequest peer request ∈ reaction.outputs := by
  obtain ⟨pursuit, metrics, resumes, asks⟩ := calls
  rw [handle_of_resumes resumes, pursue_of_free asks.behind asks.free] at done
  obtain ⟨peer, rest, found⟩ := List.exists_cons_of_ne_nil asks.available
  rw [found] at done
  obtain ⟨pursued, asked, same⟩ := exists_of_map_eq_ok done
  obtain ⟨next, -, rfl⟩ := exists_of_map_eq_ok asked
  cases same
  exact ⟨peer, _, List.mem_cons_self⟩

end

/-! ## Runs -/

section
variable {settings : Settings} {head : Header} {judge : Judge σ} {history : History σ}
  {synchronizer : Synchronizer}

theorem Run.settings_eq (run : Run settings head judge history synchronizer) :
    synchronizer.settings = settings :=
  run.keeps rfl fun _ _ _ _ _ ih transition _ => transition.settings.trans ih

theorem History.length_sent (history : History σ) : history.sent.length = history.requestsSent := by
  induction history with
  | nil => rfl
  | cons record earlier ih =>
    have here : (record.reaction.outputs.filterMap Output.syncRequest?).length =
        record.reaction.outputs.countP Output.isRequest := by
      rw [List.length_filterMap_eq_countP]
      exact List.countP_congr fun output _ => by rw [Output.isSome_syncRequest?]
    rw [sent, List.length_append, ih, here, requestsSent, requestsSent, outputs, outputs,
      List.flatMap_cons, List.countP_append, Nat.add_comm]

/-- The number of a request says how many have been sent with it. -/
theorem Run.numbers (run : Run settings head judge history synchronizer) :
    history.sent.map (fun sent => sent.2.id.number.toNat) =
      List.range' 1 history.sent.length := by
  refine run.keeps rfl fun history before record bare earlier ih transition same => ?_
  have outputs : record.reaction.outputs = bare.outputs := same ▸ rfl
  rw [History.sent, outputs, List.map_append, List.length_append, ih]
  rcases transition.sent_cases with none | ⟨peer, request, -, numbered, one⟩
  · rw [none]
    simp
  · -- The counter stands one above the requests so far, so its number continues the row.
    have next : request.id.number.toNat = 1 + history.sent.length := by
      rw [numbered, earlier.nextRequest, history.length_sent, Nat.add_comm]
    rw [one, List.length_singleton, List.range'_1_concat, List.map_singleton, next]

/-- The requests of a run are numbered 1, 2, 3 and so on, in the order in which they go out. A step
sends one at most, with its timer, from the head that it has led to; the peer is connected, and the
request is the only one that is out, unless a local request has overtaken another. One is sent
exactly when a pursuit goes on that is behind, waits for nothing and has someone to ask. -/
theorem Run.numbers_requests (run : Run settings head judge history synchronizer) :
    history.sent.map (fun sent => sent.2.id.number.toNat) =
      List.range' 1 history.sent.length ∧
    ∀ directory store input reaction after,
      synchronizer.handle judge directory store input = .ok (reaction, after) →
      (reaction.outputs.filterMap Output.syncRequest?).length ≤ 1 ∧
      (∀ peer request, .sendSyncRequest peer request ∈ reaction.outputs →
        request.id.number.toNat = history.sent.length + 1 ∧
        Sends settings directory synchronizer input reaction peer request) ∧
      ((∃ peer request, .sendSyncRequest peer request ∈ reaction.outputs) ↔
        CallsForRequest directory synchronizer input) := by
  refine ⟨run.numbers, fun directory store input reaction after done => ⟨?_, ?_, ?_, ?_⟩⟩
  · obtain ⟨bare, transition, rfl⟩ := transition_of_handle done
    rcases transition.sent_cases with none | ⟨peer, request, -, -, one⟩
    · exact (congrArg List.length none).trans_le (Nat.zero_le 1)
    · exact (congrArg List.length one).le
  · intro peer request sent
    obtain ⟨bare, transition, rfl⟩ := transition_of_handle done
    obtain ⟨outputs, connected, current, pending, free⟩ := transition.sends sent
    obtain ⟨pursuit, _, _, _, -, -, -, -, rfl, -⟩ := transition.sends_request sent
    refine ⟨run.nextRequest.trans (by rw [history.length_sent]), ?_⟩
    exact ⟨run.settings_eq ▸ outputs, connected, current, pending, free⟩
  · rintro ⟨peer, request, sent⟩
    obtain ⟨bare, transition, rfl⟩ := transition_of_handle done
    obtain ⟨pursuit, metrics, _, _, resumes, -, -, asks, -⟩ := transition.sends_request sent
    exact ⟨pursuit, metrics, resumes, asks⟩
  · intro calls
    exact exists_sent_of_calls calls done

end

/-- Peer 4 has been asked and its answer accepted; peer 7 comes next. -/
def afterFirstAnswer : Synchronizer :=
  { Synchronizer.start {} .genesis with
    phase := .syncing ⟨.genesis, ⟨⟨3⟩, 0, 0, .zero⟩, ⟨[⟨7⟩, ⟨4⟩]⟩, none⟩
    nextRequest := ⟨2⟩ }

/-- The ledger reports less than the target, so peer 7 is asked for the rest. -/
theorem numbers_requests_after_report :
    ∃ (history : History (List Verdict)) (reaction : Reaction),
      Run {} .genesis Verification.rehearsed history afterFirstAnswer ∧
      afterFirstAnswer.handle Verification.rehearsed (PeerSet.ofList [⟨4⟩, ⟨7⟩]) []
        (.ledgerUpdate ⟨⟨1⟩, 0, 5, .zero⟩) = .ok (reaction, []) ∧
      history.sent = [(⟨4⟩, ⟨.genesis, ⟨1⟩⟩)] ∧
      history.sent.map (fun sent => sent.2.id.number.toNat) = List.range' 1 1 ∧
      CallsForRequest (PeerSet.ofList [⟨4⟩, ⟨7⟩]) afterFirstAnswer
        (.ledgerUpdate ⟨⟨1⟩, 0, 5, .zero⟩) ∧
      Sends {} (PeerSet.ofList [⟨4⟩, ⟨7⟩]) afterFirstAnswer (.ledgerUpdate ⟨⟨1⟩, 0, 5, .zero⟩)
        reaction ⟨7⟩ ⟨⟨⟨1⟩, 0, 5, .zero⟩, ⟨2⟩⟩ := by
  have run : Run {} .genesis Verification.rehearsed _ afterFirstAnswer := Run.start.replay
    [(PeerSet.ofList [⟨4⟩, ⟨7⟩], .localRequest ⟨⟨3⟩, 0, 0, .zero⟩ [⟨4⟩, ⟨7⟩]),
      (PeerSet.ofList [⟨4⟩, ⟨7⟩],
        .syncResponse ⟨4⟩ ⟨.genesis, [⟨[1]⟩], ⟨⟨1⟩, 0, 5, .zero⟩⟩)] [] rfl
  obtain ⟨numbered, step⟩ := run.numbers_requests
  obtain ⟨-, sends, calls⟩ :=
    step (PeerSet.ofList [⟨4⟩, ⟨7⟩]) [] (.ledgerUpdate ⟨⟨1⟩, 0, 5, .zero⟩) _ _ rfl
  have sent := sends ⟨7⟩ ⟨⟨⟨1⟩, 0, 5, .zero⟩, ⟨2⟩⟩ List.mem_cons_self
  exact ⟨_, _, run, rfl, rfl, numbered, calls.mp ⟨_, _, List.mem_cons_self⟩, sent.2⟩

end Synchronizer

end Catchup
