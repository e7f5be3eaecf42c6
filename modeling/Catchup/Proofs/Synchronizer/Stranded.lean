import Catchup.Proofs.Synchronizer.Invariant
import Catchup.Proofs.Synchronizer.Pursuit
import Catchup.Proofs.Synchronizer.Wakeup

/-! What can restart a pursuit that has run out of candidates.

Nothing is pending and no timer brings a candidate back, so the node waits for an advertisement.
Only a header above the target counts as one, and whoever has set the target need not have told the
truth about it: above the largest version there is none. -/

set_option autoImplicit false

namespace Catchup.Synchronizer

variable {σ : Type} {judge : Judge σ} {directory : Directory} {store after : σ}
  {before : Synchronizer} {input : Input} {bare : Reaction} {pursuit : Pursuit}

/-- The advertisement makes the node send a sync request to the peer that it comes from. -/
def Wakes (judge : Judge σ) (directory : Directory) (store : σ) (synchronizer : Synchronizer)
    (peer : PeerId) (header : Header) : Prop :=
  ∃ reaction after request,
    synchronizer.handle judge directory store (.advertisement peer header) =
      .ok (reaction, after) ∧
    .sendSyncRequest peer request ∈ reaction.outputs

/-! ## Steps -/

theorem available_withCandidate (nobody : pursuit.candidates.peers = []) {peer : PeerId}
    (known : directory.has peer = true) (target : Header) :
    available directory ({ pursuit with target }.withCandidate peer) = [peer] := by
  have empty : pursuit.candidates = ⟨[]⟩ := congrArg Candidates.mk nobody
  simp [available, Pursuit.withCandidate, Candidates.insert, Candidates.contains, empty, known]

/-- Without candidates, a pursuit goes on to ask someone only after an advertisement or a local
request. -/
theorem GoesOn.of_no_candidates {resumed : Pursuit}
    (goesOn : GoesOn directory pursuit input resumed) (free : pursuit.pending = none)
    (nobody : pursuit.candidates.peers = []) {peer : PeerId} {rest : List PeerId}
    (found : available directory resumed = peer :: rest) :
    (∃ header, input = .advertisement peer header ∧ directory.has peer = true ∧
      pursuit.target.version < header.version) ∨
    ∃ target peers, input = .localRequest target peers := by
  cases goesOn with
  | timeout out => cases free.symm.trans out
  | ledgerUpdate ahead => simp [available, Pursuit.withHead, nobody] at found
  | overdue late => simp [available, nobody] at found
  | raised known ahead =>
    rw [available_withCandidate nobody known] at found
    cases found
    exact .inl ⟨_, rfl, known, Header.isAheadOf_iff_lt.mp ahead⟩
  | replaced ahead => exact .inr ⟨_, _, rfl⟩

/-- The advertising peer is the only candidate then, so it is asked. -/
theorem pursue_raised (behind : pursuit.head.version < pursuit.target.version)
    (free : pursuit.pending = none) (nobody : pursuit.candidates.peers = []) {peer : PeerId}
    (known : directory.has peer = true) {header : Header}
    (above : pursuit.target.version < header.version) :
    before.pursue directory ({ pursuit with target := header }.withCandidate peer) =
      (before.nextRequest.next).map
        (before.asking ({ pursuit with target := header }.withCandidate peer) peer []) := by
  have further : ({ pursuit with target := header }.withCandidate peer).isSynced = false := by
    rw [Version.lt_iff] at behind above
    refine decide_eq_false fun reached => ?_
    have reached : header.version.toNat ≤ pursuit.head.version.toNat := Version.le_iff.mp reached
    omega
  rw [pursue_of_free further free, available_withCandidate nobody known]

theorem wakes_iff (phase : before.phase = .syncing pursuit)
    (behind : pursuit.head.version < pursuit.target.version) (free : pursuit.pending = none)
    (nobody : pursuit.candidates.peers = []) {peer : PeerId} (known : directory.has peer = true)
    (header : Header) :
    Wakes judge directory store before peer header ↔
      pursuit.target.version < header.version ∧
        before.nextRequest.number.toNat + 1 < UInt64.size := by
  constructor
  · rintro ⟨reaction, after, request, done, sent⟩
    obtain ⟨bare, transition, rfl⟩ := transition_of_handle done
    obtain ⟨_, _, rest, nextRequest, resumes, found, next, -⟩ := transition.sends_request sent
    have following := RequestId.next_eq_ok_iff.mp next
    have bound := nextRequest.number.toNat_lt
    have goesOn := resumes.goesOn phase
    rcases goesOn.of_no_candidates free nobody found with ⟨_, same, _, above⟩ | ⟨_, _, same⟩
    · cases same
      exact ⟨above, by simp only [UInt64.size]; omega⟩
    · cases same
  · rintro ⟨above, room⟩
    have ahead := Header.isAheadOf_iff_lt.mpr above
    have asked : before.pursue directory _ = _ := pursue_raised behind free nobody known above
    cases next : before.nextRequest.next with
    | error fault =>
      have full := (RequestId.next_eq_error_iff.mp next).2
      omega
    | ok nextRequest =>
      rw [next] at asked
      have done : before.handle judge directory store (.advertisement peer header) = _ :=
        handle_of_resumes (.raised phase known ahead)
      rw [asked] at done
      exact ⟨_, store, ⟨pursuit.head, before.nextRequest⟩, done, List.mem_cons_self⟩

/-! ## Runs -/

theorem exists_version_lt_iff {version : Version} :
    (∃ header : Header, version < header.version) ↔ version.toNat + 1 < UInt64.size := by
  constructor
  · rintro ⟨header, above⟩
    have bound := header.version.toNat_lt_size
    rw [Version.lt_iff] at above
    omega
  · intro room
    refine ⟨⟨version.advance 1, 0, 0, .zero⟩, ?_⟩
    rw [Version.lt_iff, Version.toNat_advance]
    omega

section
variable {settings : Settings} {head : Header} {history : History σ} {synchronizer : Synchronizer}

/-- A pursuit that is out of candidates can be restarted by any connected peer, unless its target is
at the largest version of all or the numbers of requests are used up. Apart from a local request,
nothing but an advertisement above the target restarts it. -/
theorem Run.woken_by_advertisement (run : Run settings head judge history synchronizer)
    (phase : synchronizer.phase = .syncing pursuit) (free : pursuit.pending = none)
    (nobody : pursuit.candidates.peers = []) (directory : Directory) (store : σ) :
    (∀ peer, directory.has peer = true →
      ((∃ header, Wakes judge directory store synchronizer peer header) ↔
        pursuit.target.version.toNat + 1 < UInt64.size ∧
          history.requestsSent + 2 < UInt64.size)) ∧
    ∀ input reaction after peer request,
      synchronizer.handle judge directory store input = .ok (reaction, after) →
      .sendSyncRequest peer request ∈ reaction.outputs →
      (∃ header, input = .advertisement peer header ∧ directory.has peer = true ∧
        pursuit.target.version < header.version) ∨
      ∃ target peers, input = .localRequest target peers := by
  have behind := run.sound.behind pursuit phase
  have numbered := run.nextRequest
  refine ⟨fun peer known => ?_, fun input reaction after peer request done sent => ?_⟩
  · simp only [wakes_iff phase behind free nobody known, exists_and_right, exists_version_lt_iff,
      numbered]
  · obtain ⟨bare, transition, rfl⟩ := transition_of_handle done
    obtain ⟨_, _, rest, nextRequest, resumes, found, -⟩ := transition.sends_request sent
    exact (resumes.goesOn phase).of_no_candidates free nobody found

end

/-- Peer 4 has told of a header, and is gone when its request times out. -/
def strandedAt (target : Version) : List (Directory × Input) :=
  [(PeerSet.ofList [⟨4⟩], .advertisement ⟨4⟩ ⟨target, 0, 0, .zero⟩),
    (PeerSet.empty, .requestTimedOut ⟨4⟩ ⟨1⟩)]

/-- The target is version 5, and peer 7 wakes the node. -/
theorem woken_by_advertisement_of_other_peer :
    ∃ (history : History (List Verdict)) (synchronizer : Synchronizer) (pursuit : Pursuit),
      Run {} .genesis Verification.rehearsed history synchronizer ∧
      synchronizer.phase = .syncing pursuit ∧ pursuit.target.version = ⟨5⟩ ∧
      pursuit.pending = none ∧ pursuit.candidates.peers = [] ∧
      ∃ header, Wakes Verification.rehearsed (PeerSet.ofList [⟨7⟩]) [] synchronizer ⟨7⟩ header := by
  have run : Run {} .genesis Verification.rehearsed _ _ :=
    Run.start.replay (strandedAt ⟨5⟩) [] rfl
  obtain ⟨woken, -⟩ := run.woken_by_advertisement rfl rfl rfl (PeerSet.ofList [⟨7⟩]) []
  refine ⟨_, _, _, run, rfl, rfl, rfl, rfl, ?_⟩
  apply (woken ⟨7⟩ rfl).mpr
  decide

/-- The target is at the largest version, and no advertisement of any peer wakes the node. -/
theorem not_woken_above_largest_version :
    ∃ (history : History (List Verdict)) (synchronizer : Synchronizer) (pursuit : Pursuit),
      Run {} .genesis Verification.rehearsed history synchronizer ∧
      synchronizer.phase = .syncing pursuit ∧ pursuit.pending = none ∧
      pursuit.candidates.peers = [] ∧ history.requestsSent = 1 ∧
      ∀ header,
        ¬ Wakes Verification.rehearsed (PeerSet.ofList [⟨7⟩]) [] synchronizer ⟨7⟩ header := by
  have run : Run {} .genesis Verification.rehearsed _ _ :=
    Run.start.replay (strandedAt ⟨18446744073709551615⟩) [] rfl
  refine ⟨_, _, _, run, rfl, rfl, rfl, rfl, fun header wakes => ?_⟩
  have above := ((wakes_iff rfl (by decide) rfl rfl rfl header).mp wakes).1
  exact absurd (exists_version_lt_iff.mp ⟨header, above⟩) (by decide)

end Catchup.Synchronizer
