import Catchup.Proofs.StatusCheck
import Catchup.Proofs.Synchronizer.Transition
import Catchup.Proofs.Verification

/-! The way of a synchronizer from a status check to the best header it has heard of.

All peers are asked, all answer, and the last answer closes the check. If the best one is ahead, its
peer is asked for the extension; that is accepted, and the report of its commit ends the pursuit. -/

set_option autoImplicit false

namespace Catchup.Synchronizer

variable {σ : Type} {judge : Judge σ} {directory : Directory} {store after : σ}
  {before : Synchronizer} {bare : Reaction}

theorem not_overflows_of_unsent {input : Input} (limit : before.settings.checkLimit = none)
    (unsent : before.nextRequest = ⟨1⟩) (unchecked : input = .checkDue → before.lastCheck = 0)
    (fault : Fault) : ¬ Overflows directory before input fault := by
  intro overflows
  cases overflows with
  | offset phase full =>
    rw [checkWindow, limit] at full
    cases full
  | check phase window somebody full =>
    rw [unchecked rfl] at full
    cases full
  | request resumes asks full =>
    rw [unsent] at full
    cases full

/-! ## Asking -/

theorem Transition.of_checkDue {head : Header} (phase : before.phase = .idle head)
    (limit : before.settings.checkLimit = none) (unchecked : before.lastCheck = 0)
    (transition : Transition judge directory store before .checkDue bare after) :
    after = store ∧ ((directory.peers = [] ∧ bare = before.quietly) ∨
      directory.peers ≠ [] ∧
      bare.synchronizer = { before with
        phase := .checking (.ofPeers 1 head directory.peers), lastCheck := 1 } ∧
      bare.outputs = directory.peers.map .sendStatusRequest ++
        [.schedule (.statusWindow 1) before.settings.statusWindow]) := by
  have everyone : before.checkWindow directory = .ok (directory.peers, before.checkOffset) := by
    rw [checkWindow, limit]
  cases transition with
  | ignored ignores =>
    cases ignores with
    | checkDue busy => exact absurd (congrArg Phase.kind phase) busy
  | unasked other window =>
    obtain ⟨nobody, same⟩ := Prod.mk.inj (Except.ok.inj (everyone.symm.trans window))
    exact ⟨rfl, .inl ⟨nobody, by rw [← same]⟩⟩
  | checkStarted other window somebody number =>
    cases phase.symm.trans other
    cases everyone.symm.trans window
    rw [unchecked] at number
    cases number
    exact ⟨rfl, .inr ⟨somebody, rfl, rfl⟩⟩
  | checkClosed closes => cases closes
  | resumed resumes =>
    cases resumes with
    | check closes => cases closes

/-! ## Deciding -/

section
variable {heads : PeerId → Header} {head : Header} {heard waiting : List PeerId} {peer : PeerId}
  {check : StatusCheck}

theorem Transition.of_answer (phase : before.phase = .checking check)
    (gathers : check.Gathers heads head heard (peer :: waiting))
    (transition : Transition judge directory store before (.statusResponse peer (heads peer)) bare
      after) :
    after = store ∧
    ((waiting ≠ [] ∧ bare = (before.enter (.checking (check.record peer (heads peer)))).quietly) ∨
    (waiting = [] ∧ (∀ chosen target, ¬ Finds (check.record peer (heads peer)) chosen target) ∧
      bare.synchronizer = before.enter (.idle head) ∧ bare.outputs = []) ∨
    (waiting = [] ∧ ∃ chosen target reaction, Finds (check.record peer (heads peer)) chosen target ∧
      Pursues directory before (found (check.record peer (heads peer)) chosen target) reaction ∧
      bare.synchronizer = reaction.synchronizer ∧ bare.outputs = reaction.outputs)) := by
  have complete := gathers.record.isComplete_iff
  have awaited := gathers.isWaitingFor
  cases transition with
  | ignored ignores =>
    cases ignores with
    | statusResponse strange =>
      rw [strange check phase] at awaited
      cases awaited
  | answered other waits incomplete =>
    cases phase.symm.trans other
    refine ⟨rfl, .inl ⟨fun empty => ?_, rfl⟩⟩
    rw [complete.mpr empty] at incomplete
    cases incomplete
  | checkClosed closes nobody =>
    cases closes with
    | lastAnswer other waits done =>
      cases phase.symm.trans other
      refine ⟨rfl, .inr (.inl ⟨complete.mp done, nobody, ?_, rfl⟩)⟩
      rw [gathers.record.head]
      rfl
  | resumed resumes pursues =>
    cases resumes with
    | check closes finds =>
      cases closes with
      | lastAnswer other waits done =>
        cases phase.symm.trans other
        exact ⟨rfl, .inr (.inr ⟨complete.mp done, _, _, _, finds, pursues, rfl, rfl⟩)⟩

end

theorem Pursues.of_found {check : StatusCheck} {chosen : PeerId} {target : Header}
    (finds : Finds check chosen target) (known : directory.has chosen = true)
    (pursues : Pursues directory before (found check chosen target) bare) :
    (∃ pursuit, bare.synchronizer.phase = .syncing pursuit ∧ pursuit.head = check.head ∧
      pursuit.target = target ∧ pursuit.pending = some ⟨chosen, before.nextRequest⟩) ∧
    bare.synchronizer.settings = before.settings ∧
    bare.outputs = [.sendSyncRequest chosen ⟨check.head, before.nextRequest⟩,
      .schedule (.request chosen before.nextRequest) before.settings.requestTimeout] := by
  -- The chosen peer is still connected, so it comes first.
  have front : available directory (found check chosen target) =
      chosen :: ((check.peersAt target.version).filter (· ≠ chosen)).filter directory.has :=
    List.filter_cons_of_pos known
  cases pursues with
  | reached synced =>
    have below := Version.not_lt.mpr (of_decide_eq_true synced)
    exact absurd (Header.isAheadOf_iff_lt.mp finds.ahead) below
  | waiting behind out => exact absurd rfl out
  | exhausted behind free nobody =>
    rw [front] at nobody
    cases nobody
  | asked behind free somebody next =>
    rw [front] at somebody
    cases somebody
    exact ⟨⟨_, rfl, rfl, rfl, rfl⟩, rfl, rfl⟩

/-! ## Catching up -/

theorem Transition.of_accepted {pursuit : Pursuit} {peer : PeerId} {extension : Extension}
    {reached : σ} (phase : before.phase = .syncing pursuit)
    (judged : judge pursuit peer extension store = (.accepted, reached))
    (transition : Transition judge directory store before (.syncResponse peer extension) bare
      after) :
    after = reached ∧
    bare.synchronizer = before.enter (.syncing { pursuit with pending := none }) ∧
    bare.outputs = [.prioritize peer,
      .schedule (.commit pursuit.head.version) before.settings.commitTimeout] := by
  cases transition with
  | ignored ignores =>
    cases ignores with
    | syncResponse other => exact absurd (congrArg Phase.kind phase) other
  | unsolicited other refused | malicious other refused =>
    cases phase.symm.trans other
    cases judged.symm.trans refused
  | accepted other again =>
    cases phase.symm.trans other
    cases judged.symm.trans again
    exact ⟨rfl, rfl, rfl⟩
  | checkClosed closes => cases closes
  | resumed resumes =>
    cases resumes with
    | check closes => cases closes

theorem Transition.of_report {pursuit : Pursuit} {header : Header}
    (phase : before.phase = .syncing pursuit) (ahead : header.isAheadOf pursuit.head = true)
    (reaches : (pursuit.withHead header).isSynced = true)
    (transition : Transition judge directory store before (.ledgerUpdate header) bare after) :
    after = store ∧ bare.synchronizer = before.enter (.idle header) ∧ bare.outputs = [] := by
  have further : header.isAheadOf before.head = true := by
    rw [Synchronizer.head, phase]
    exact ahead
  cases transition with
  | ignored ignores =>
    cases ignores with
    | ledgerUpdate known =>
      rw [further] at known
      cases known
  | adopted other => exact absurd (congrArg Phase.kind phase) other
  | checkClosed closes => cases closes
  | resumed resumes pursues =>
    cases resumes with
    | check closes => cases closes
    | ledgerUpdate other =>
      cases phase.symm.trans other
      cases pursues with
      | reached => exact ⟨rfl, rfl, rfl⟩
      | waiting behind | exhausted behind | asked behind =>
        rw [reaches] at behind
        cases behind

end Catchup.Synchronizer

namespace Catchup.Verification

variable {proofs : Proofs} {pursuit : Pursuit} {peer : PeerId} {extension : Extension}
  {ledger : Ledger}

/-- What was asked for and continues the ledger is accepted from an honest peer. -/
theorem exists_accepted_of_honest (proofs : Proofs) (honest : extension.Honest)
    (solicited : checkSolicited pursuit peer extension = .ok ())
    (current : extension.start = ledger.header)
    (quorum : proofs.hasQuorum extension.finish = true)
    (signatures : proofs.signaturesMatch extension.finish = true) :
    ∃ after, judge proofs Ledger.committer pursuit peer extension ledger = (.accepted, after) ∧
      after.header = extension.finish ∧
      after.unreported = ledger.unreported ++ [extension.finish] := by
  have proven := checkProof_of_reaches honest.reaches quorum signatures
  have committed := committer_eq_ok_iff.mpr (commit_of_honest honest current)
  exact ⟨_, judge_of_committed solicited proven committed, rfl, rfl⟩

end Catchup.Verification
