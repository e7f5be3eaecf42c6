import Catchup.Proofs.Synchronizer.Run
import Catchup.Proofs.Verification

/-! Whom a synchronizer bans or prioritizes.

Responses carry no number, so all that ties one to a request is the peer that is waited for. A peer
is banned or prioritized only while a request to it is out: the run has sent it, and nothing since
then has ended the wait. -/

set_option autoImplicit false

namespace Catchup

/-- The peer that an output bans or prioritizes. -/
def Output.controlled? : Output → Option PeerId
  | .ban peer _ _ => some peer
  | .prioritize peer => some peer
  | _ => none

/-- The request that is out, if a pursuit is on and waits for one. -/
def Phase.pending? (phase : Phase) : Option PendingRequest :=
  phase.pursuit?.bind fun pursuit => pursuit.pending

theorem Phase.pending?_eq_some_iff {phase : Phase} {pending : PendingRequest} :
    phase.pending? = some pending ↔
      ∃ pursuit, phase = .syncing pursuit ∧ pursuit.pending = some pending := by
  cases phase <;> simp [pending?, pursuit?]

namespace Synchronizer

variable {σ : Type}

/-- A step that ends no wait for the request: it does not time out, nothing is accepted, and no
local request starts another pursuit. -/
structure Spares (pending : PendingRequest) (input : Input) (outputs : List Output) : Prop where
  timeout : input ≠ .requestTimedOut pending.peer pending.id
  pursuit : ∀ target peers, input ≠ .localRequest target peers
  acceptance : ∀ peer, .prioritize peer ∉ outputs

/-- A step of the run has sent the request. Since then one pursuit has been on and has waited for
it: every later step has spared it. -/
def History.WaitsFor (history : History σ) (pending : PendingRequest) : Prop :=
  ∃ since sent earlier, history = since ++ sent :: earlier ∧
    (∃ after, .sendSyncRequest pending.peer ⟨after, pending.id⟩ ∈ sent.reaction.outputs) ∧
    sent.reaction.synchronizer.phase.pending? = some pending ∧
    ∀ record ∈ since, record.reaction.synchronizer.phase.pending? = some pending ∧
      Spares pending record.input record.reaction.outputs

/-! ## Steps -/

section
variable {judge : Judge σ} {directory : Directory} {store after : σ} {before : Synchronizer}
  {input : Input} {bare : Reaction} {pending : PendingRequest}

theorem Resumes.spares {pursuit : Pursuit} {metrics : List Metric}
    (resumes : Resumes directory before input pursuit metrics)
    (held : pursuit.pending = some pending) :
    before.phase.pending? = some pending ∧ Spares pending input [] := by
  cases resumes with
  | check | timeout | advertised | requested => cases held
  | ledgerUpdate phase ahead =>
    exact ⟨Phase.pending?_eq_some_iff.mpr ⟨_, phase, held⟩, nofun, nofun, nofun⟩
  | overdue phase late =>
    exact ⟨Phase.pending?_eq_some_iff.mpr ⟨_, phase, held⟩, nofun, nofun, nofun⟩
  | raised phase known ahead =>
    exact ⟨Phase.pending?_eq_some_iff.mpr ⟨_, phase, held⟩, nofun, nofun, nofun⟩

/-- A request that is out when a pursuit has gone on was out before, or has just been sent. -/
theorem Pursues.kept_or_sent {pursuit : Pursuit} (pursues : Pursues directory before pursuit bare)
    (held : bare.synchronizer.phase.pending? = some pending) :
    (pursuit.pending = some pending ∧ bare.outputs = []) ∨
      .sendSyncRequest pending.peer ⟨pursuit.head, pending.id⟩ ∈ bare.outputs := by
  cases pursues with
  | reached done => cases held
  | waiting behind busy => exact .inl ⟨held, rfl⟩
  | exhausted behind free gone => exact absurd (free.symm.trans held) nofun
  | asked behind free found next =>
    cases held
    exact .inr List.mem_cons_self

theorem Ignores.spares (ignores : Ignores directory before input)
    (held : before.phase.pending? = some pending) : Spares pending input [] := by
  obtain ⟨pursuit, phase, out⟩ := Phase.pending?_eq_some_iff.mp held
  refine ⟨?_, ?_, nofun⟩
  · rintro rfl
    cases ignores with
    | requestTimedOut stale => exact stale pursuit phase out
  · rintro target peers rfl
    cases ignores

theorem Transition.sent_or_spared
    (transition : Transition judge directory store before input bare after)
    (held : bare.synchronizer.phase.pending? = some pending) :
    (∃ header, .sendSyncRequest pending.peer ⟨header, pending.id⟩ ∈ bare.outputs) ∨
      (before.phase.pending? = some pending ∧ Spares pending input bare.outputs) := by
  cases transition with
  | ignored ignores => exact .inr ⟨held, ignores.spares held⟩
  | unasked phase window => exact .inr ⟨held, nofun, nofun, nofun⟩
  | resumed resumes pursues =>
    rcases pursues.kept_or_sent held with ⟨kept, silent⟩ | sent
    · obtain ⟨earlier, spares⟩ := resumes.spares kept
      exact .inr ⟨earlier, silent ▸ spares⟩
    · exact .inl ⟨_, sent⟩
  | unsolicited phase judged => exact .inr ⟨held, nofun, nofun, nofun⟩
  | malicious phase judged =>
    refine .inr ⟨held, nofun, nofun, fun peer member => ?_⟩
    cases List.mem_singleton.mp member
  | @adopted header other ahead =>
    -- Without a pursuit nothing is out.
    obtain ⟨pursuit, phase, -⟩ := Phase.pending?_eq_some_iff.mp held
    have syncing : (before.phase.withHead header).kind = .syncing := congrArg Phase.kind phase
    exact absurd ((Phase.kind_withHead ..).symm.trans syncing) other
  | checkStarted | answered | checkClosed | accepted | satisfied => cases held

end

section
variable {proofs : Proofs} {commit : Committer σ} {directory : Directory} {store after : σ}
  {before : Synchronizer} {input : Input} {bare : Reaction}

theorem Pursues.controls_no_one {pursuit : Pursuit}
    (pursues : Pursues directory before pursuit bare) :
    bare.outputs.filterMap Output.controlled? = [] := by
  cases pursues <;> rfl

/-- A step controls no peer, or the one that was asked and has just answered. -/
theorem Transition.controls
    (transition : Transition (Verification.judge proofs commit) directory store before input bare
      after) :
    bare.outputs.filterMap Output.controlled? = [] ∨
    ∃ peer id extension, input = .syncResponse peer extension ∧
      before.phase.pending? = some ⟨peer, id⟩ ∧
      extension.start.version = before.head.version ∧
      bare.outputs.filterMap Output.controlled? = [peer] := by
  -- The response got past the first check, so it came from the peer that was asked.
  have answered {pursuit : Pursuit} {peer : PeerId} {extension : Extension} {verdict : Verdict}
      (phase : before.phase = .syncing pursuit)
      (judged : Verification.judge proofs commit pursuit peer extension store = (verdict, after))
      (taken : ∀ reason, verdict ≠ .unsolicited reason) :
      (∃ id, before.phase.pending? = some ⟨peer, id⟩) ∧
        extension.start.version = before.head.version := by
    have solicited := (Verification.decides_of_judge judged).solicited taken
    obtain ⟨⟨id, out⟩, current⟩ := Verification.checkSolicited_eq_ok_iff.mp solicited
    refine ⟨⟨id, Phase.pending?_eq_some_iff.mpr ⟨pursuit, phase, out⟩⟩, ?_⟩
    rw [current, Synchronizer.head, phase]
    rfl
  cases transition with
  | malicious phase judged =>
    obtain ⟨⟨id, out⟩, current⟩ := answered phase judged (by simp)
    exact .inr ⟨_, id, _, rfl, out, current, rfl⟩
  | accepted phase judged =>
    obtain ⟨⟨id, out⟩, current⟩ := answered phase judged (by simp)
    exact .inr ⟨_, id, _, rfl, out, current, rfl⟩
  | checkStarted phase window somebody number =>
    left
    simp [Output.controlled?]
  | resumed resumes pursues => exact .inl pursues.controls_no_one
  | ignored | unasked | answered | checkClosed | unsolicited | adopted | satisfied => exact .inl rfl

/-- A response that no request is out for leaves everything as it is. -/
theorem Transition.unsolicited_inert {peer : PeerId} {extension : Extension}
    (transition : Transition (Verification.judge proofs commit) directory store before
      (.syncResponse peer extension) bare after)
    (strange : ∀ id, before.phase.pending? ≠ some ⟨peer, id⟩) :
    bare.outputs = [] ∧ bare.synchronizer = before ∧ after = store := by
  have refused {pursuit : Pursuit} (phase : before.phase = .syncing pursuit) :
      Verification.checkSolicited pursuit peer extension ≠ .ok () := by
    intro solicited
    obtain ⟨⟨id, out⟩, -⟩ := Verification.checkSolicited_eq_ok_iff.mp solicited
    exact strange id (Phase.pending?_eq_some_iff.mpr ⟨pursuit, phase, out⟩)
  cases transition with
  | ignored ignores => exact ⟨rfl, rfl, rfl⟩
  | unsolicited phase judged =>
    exact ⟨rfl, rfl, ((Verification.decides_of_judge judged).of_unsolicited (refused phase)).1⟩
  | malicious phase judged =>
    exact absurd ((Verification.decides_of_judge judged).solicited nofun) (refused phase)
  | accepted phase judged =>
    exact absurd ((Verification.decides_of_judge judged).solicited nofun) (refused phase)
  | checkClosed closes => cases closes
  | resumed resumes pursues =>
    cases resumes with
    | check closes finds => cases closes

theorem mem_controlled_of_ban {outputs : List Output} {peer : PeerId} {reason : Misconduct}
    {duration : Nat} (banned : .ban peer reason duration ∈ outputs) :
    peer ∈ outputs.filterMap Output.controlled? :=
  List.mem_filterMap.mpr ⟨_, banned, rfl⟩

/-- A ban comes alone, and from a verdict that has changed nothing but the store. -/
theorem Transition.banned {judge : Judge σ}
    (transition : Transition judge directory store before input bare after) {peer : PeerId}
    {reason : Misconduct} {duration : Nat} (banned : .ban peer reason duration ∈ bare.outputs) :
    bare.outputs = [.ban peer reason duration] ∧ bare.synchronizer = before ∧
      ∃ pursuit extension, input = .syncResponse peer extension ∧
        before.phase = .syncing pursuit ∧
        judge pursuit peer extension store = (.malicious reason, after) := by
  cases transition with
  | malicious phase judged =>
    cases List.mem_singleton.mp banned
    exact ⟨rfl, rfl, _, _, rfl, phase, judged⟩
  | checkStarted phase window somebody number => simp at banned
  | resumed resumes pursues =>
    cases List.filterMap_eq_nil_iff.mp pursues.controls_no_one _ banned
  | accepted phase judged => simp at banned
  | ignored | unasked | answered | checkClosed | unsolicited | adopted | satisfied => cases banned

end

/-! ## Runs -/

section
variable {settings : Settings} {head : Header} {history : History σ} {synchronizer : Synchronizer}

/-- A request is out only if the run has sent it and has waited for it since. -/
theorem Run.waits_for {judge : Judge σ} (run : Run settings head judge history synchronizer) :
    ∀ pending, synchronizer.phase.pending? = some pending → history.WaitsFor pending := by
  refine run.keeps (fun pending held => nomatch held) ?_
  intro history before record bare _ ih transition same pending held
  have outputs : record.reaction.outputs = bare.outputs := same ▸ rfl
  have reached : record.reaction.synchronizer.phase.pending? = some pending := same ▸ held
  rcases transition.sent_or_spared held with ⟨header, sent⟩ | ⟨earlier, spares⟩
  · refine ⟨[], record, history, rfl, ⟨header, outputs ▸ sent⟩, reached, ?_⟩
    intro later member
    cases member
  · obtain ⟨since, sent, former, rfl, request, out, spared⟩ := ih pending earlier
    refine ⟨record :: since, sent, former, rfl, request, out, ?_⟩
    intro later member
    rcases List.mem_cons.mp member with rfl | member
    · exact ⟨reached, outputs ▸ spares⟩
    · exact spared later member

/-- A step bans or prioritizes one peer at most: the one whose request is out, sent in this run and
waited for ever since. A ban comes alone and changes neither the synchronizer nor a ledger that the
responses are committed to. A response from another peer leaves no trace at all. -/
theorem Run.controls_awaited_peer {proofs : Proofs} {commit : Committer σ}
    (run : Run settings head (Verification.judge proofs commit) history synchronizer)
    {directory : Directory} {store after : σ} {input : Input} {reaction : Reaction}
    (done : synchronizer.handle (Verification.judge proofs commit) directory store input =
      .ok (reaction, after)) :
    (reaction.outputs.filterMap Output.controlled?).length ≤ 1 ∧
    (∀ peer ∈ reaction.outputs.filterMap Output.controlled?,
      ∃ id, synchronizer.phase.pending? = some ⟨peer, id⟩ ∧ history.WaitsFor ⟨peer, id⟩) ∧
    (∀ peer reason duration, .ban peer reason duration ∈ reaction.outputs →
      reaction.outputs = [.ban peer reason duration] ∧ reaction.synchronizer = synchronizer ∧
      ∃ extension, input = .syncResponse peer extension ∧
        extension.start.version = synchronizer.head.version) ∧
    (∀ ledger later judged peer reason duration,
      synchronizer.handle (Verification.judge proofs Ledger.committer) directory ledger input =
        .ok (judged, later) →
      .ban peer reason duration ∈ judged.outputs → later = ledger) ∧
    ∀ peer extension, input = .syncResponse peer extension →
      (∀ id, synchronizer.phase.pending? ≠ some ⟨peer, id⟩) →
      reaction.outputs = [] ∧ reaction.synchronizer = synchronizer ∧ after = store := by
  obtain ⟨bare, transition, rfl⟩ := transition_of_handle done
  refine ⟨?_, fun peer member => ?_, fun peer reason duration banned => ?_, ?_, ?_⟩
  · rcases transition.controls with none | ⟨peer, id, extension, -, -, -, one⟩
    · exact (congrArg List.length none).trans_le (Nat.zero_le 1)
    · exact (congrArg List.length one).le
  · rcases transition.controls with none | ⟨asked, id, extension, -, out, -, one⟩
    · exact absurd (none ▸ member) List.not_mem_nil
    · obtain rfl : peer = asked := List.mem_singleton.mp (one ▸ member)
      exact ⟨id, out, run.waits_for _ out⟩
  · obtain ⟨alone, kept, -⟩ := transition.banned banned
    refine ⟨alone, kept, ?_⟩
    rcases transition.controls with none | ⟨asked, id, extension, given, -, current, one⟩
    · exact absurd (none ▸ mem_controlled_of_ban banned) List.not_mem_nil
    · obtain rfl : peer = asked := List.mem_singleton.mp (one ▸ mem_controlled_of_ban banned)
      exact ⟨extension, given, current⟩
  · intro ledger later judged peer reason duration step banned
    obtain ⟨bare, transition, rfl⟩ := transition_of_handle step
    obtain ⟨-, -, pursuit, extension, -, -, verdict⟩ := transition.banned banned
    rcases (Verification.decides_of_judge verdict).ledger with same | ⟨accepted, -⟩
    · exact same
    · cases accepted
  · rintro peer extension rfl strange
    exact transition.unsolicited_inert strange

end

/-- Peer 4 was asked first and its request has timed out, so peer 7 is asked. Its answer miscounts,
and it is banned; the late answer of peer 4 is not looked at. -/
theorem controls_awaited_peer_after_timeout :
    ∃ (history : History Ledger) (synchronizer : Synchronizer) (reaction : Reaction),
      Run {} .genesis (Verification.judge .trusting Ledger.committer) history synchronizer ∧
      synchronizer.handle (Verification.judge .trusting Ledger.committer)
        (PeerSet.ofList [⟨4⟩, ⟨7⟩]) .empty
        (.syncResponse ⟨7⟩ ⟨.genesis, [⟨[1]⟩], ⟨⟨3⟩, 0, 0, .zero⟩⟩) = .ok (reaction, .empty) ∧
      reaction.outputs = [.ban ⟨7⟩ (.inconsistentCount ⟨0⟩ 1 ⟨3⟩) 1_800_000_000_000] ∧
      history.WaitsFor ⟨⟨7⟩, ⟨2⟩⟩ ∧
      ∀ extension reaction after, synchronizer.handle
          (Verification.judge .trusting Ledger.committer) (PeerSet.ofList [⟨4⟩, ⟨7⟩]) .empty
          (.syncResponse ⟨4⟩ extension) = .ok (reaction, after) →
        reaction.outputs = [] ∧ after = .empty := by
  have run : Run {} .genesis (Verification.judge .trusting Ledger.committer) _ _ :=
    Run.start.replay
      [(PeerSet.ofList [⟨4⟩, ⟨7⟩], .localRequest ⟨⟨3⟩, 0, 0, .zero⟩ [⟨4⟩, ⟨7⟩]),
        (PeerSet.ofList [⟨4⟩, ⟨7⟩], .requestTimedOut ⟨4⟩ ⟨1⟩)] .empty rfl
  refine ⟨_, _, _, run, rfl, rfl, ?_, fun extension reaction after done => ?_⟩
  · obtain ⟨-, awaited, -⟩ := run.controls_awaited_peer
      (show Synchronizer.handle _ (PeerSet.ofList [⟨4⟩, ⟨7⟩]) Ledger.empty _
        (.syncResponse ⟨7⟩ ⟨.genesis, [⟨[1]⟩], ⟨⟨3⟩, 0, 0, .zero⟩⟩) = .ok _ from rfl)
    obtain ⟨id, out, waits⟩ := awaited ⟨7⟩ List.mem_cons_self
    cases out
    exact waits
  · obtain ⟨-, -, -, -, strange⟩ := run.controls_awaited_peer done
    obtain ⟨silent, -, kept⟩ := strange ⟨4⟩ extension rfl fun id out => by cases out
    exact ⟨silent, kept⟩

end Synchronizer

end Catchup
