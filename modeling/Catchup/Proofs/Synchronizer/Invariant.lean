import Catchup.Proofs.Synchronizer.Run

/-! What holds of every state that a synchronizer reaches, and that none of its steps breaks off
before a counter has run through its word. -/

set_option autoImplicit false

namespace Catchup.Synchronizer

variable {σ : Type}

/-- A pending request is the last that went out: its peer stands at the back of the queue. -/
structure Tracks (nextRequest : RequestId) (pursuit : Pursuit) (pending : PendingRequest) :
    Prop where
  last : pursuit.candidates.peers.getLast? = some pending.peer
  numbered : pending.id.number.toNat < nextRequest.number.toNat

/-- The status check in progress is the last one, and each peer that it has asked has either
answered or is waited for. -/
structure Awaits (lastCheck : UInt64) (asked : List PeerId) (check : StatusCheck) : Prop where
  number : check.number = lastCheck
  waiting : check.waitingFor.toList ≠ []
  apart : ∀ peer, peer ∈ check.waitingFor.toList → peer ∉ check.answers.map Prod.fst
  covers : ∀ peer, peer ∈ asked ↔
    peer ∈ check.waitingFor.toList ∨ peer ∈ check.answers.map Prod.fst

/-- What holds of every state that is reached, given the peers that the last check has asked. -/
structure Sound (asked : List PeerId) (synchronizer : Synchronizer) : Prop where
  behind : ∀ pursuit, synchronizer.phase = .syncing pursuit →
    pursuit.head.version < pursuit.target.version
  tracked : ∀ pursuit, synchronizer.phase = .syncing pursuit →
    ∀ pending, pursuit.pending = some pending → Tracks synchronizer.nextRequest pursuit pending
  awaiting : ∀ check, synchronizer.phase = .checking check →
    Awaits synchronizer.lastCheck asked check

theorem lt_target_of_isSynced_eq_false {pursuit : Pursuit} (behind : pursuit.isSynced = false) :
    pursuit.head.version < pursuit.target.version := by
  have short := of_decide_eq_false behind
  rw [Version.le_iff] at short
  exact Version.lt_iff.mpr (Nat.lt_of_not_le short)

theorem Sound.of_idle {asked : List PeerId} {synchronizer : Synchronizer} {head : Header}
    (phase : synchronizer.phase = .idle head) : Sound asked synchronizer :=
  ⟨by simp [phase], by simp [phase], by simp [phase]⟩

theorem Sound.of_syncing {asked : List PeerId} {synchronizer : Synchronizer} {pursuit : Pursuit}
    (phase : synchronizer.phase = .syncing pursuit)
    (behind : pursuit.head.version < pursuit.target.version)
    (tracked : ∀ pending, pursuit.pending = some pending →
      Tracks synchronizer.nextRequest pursuit pending) : Sound asked synchronizer := by
  refine ⟨fun other same => ?_, fun other same => ?_, by simp [phase]⟩ <;>
    cases phase.symm.trans same
  · exact behind
  · exact tracked

theorem Sound.of_checking {asked : List PeerId} {synchronizer : Synchronizer} {check : StatusCheck}
    (phase : synchronizer.phase = .checking check)
    (awaits : Awaits synchronizer.lastCheck asked check) : Sound asked synchronizer := by
  refine ⟨by simp [phase], by simp [phase], fun other same => ?_⟩
  cases phase.symm.trans same
  exact awaits

/-! ## Steps -/

section
variable {judge : Judge σ} {directory : Directory} {store after : σ} {before : Synchronizer}
  {input : Input} {bare : Reaction} {asked : List PeerId}

/-- Whatever is still pending when a pursuit goes on is tracked as before. -/
theorem Resumes.tracks {pursuit : Pursuit} {metrics : List Metric}
    (resumes : Resumes directory before input pursuit metrics) (sound : Sound asked before) :
    ∀ pending, pursuit.pending = some pending → Tracks before.nextRequest pursuit pending := by
  intro pending held
  cases resumes with
  | check | timeout | advertised | requested => cases held
  | ledgerUpdate phase ahead =>
    obtain ⟨last, numbered⟩ := sound.tracked _ phase pending held
    exact ⟨last, numbered⟩
  | overdue phase late => exact sound.tracked _ phase pending held
  | raised phase known ahead =>
    obtain ⟨last, numbered⟩ := sound.tracked _ phase pending held
    -- The advertising peer comes in at the front, so the last candidate stays.
    exact ⟨Candidates.getLast?_insert last, numbered⟩

theorem Pursues.sound {pursuit : Pursuit} (pursues : Pursues directory before pursuit bare)
    (tracked : ∀ pending, pursuit.pending = some pending →
      Tracks before.nextRequest pursuit pending) : Sound asked bare.synchronizer := by
  cases pursues with
  | reached done => exact .of_idle rfl
  | waiting behind busy => exact .of_syncing rfl (lt_target_of_isSynced_eq_false behind) tracked
  | exhausted behind free gone =>
    refine .of_syncing rfl (lt_target_of_isSynced_eq_false behind) fun pending held => ?_
    cases free.symm.trans held
  | asked behind free found next =>
    refine .of_syncing rfl (lt_target_of_isSynced_eq_false behind) fun pending held => ?_
    cases held
    -- The peer that is asked goes to the back of the queue with its request.
    refine ⟨List.getLast?_concat, ?_⟩
    have following := RequestId.next_eq_ok_iff.mp next
    simp only [asking]
    omega

theorem Awaits.ofPeers {number : UInt64} {head : Header} (somebody : asked ≠ []) :
    Awaits number asked (.ofPeers number head asked) where
  number := rfl
  waiting empty := by
    obtain ⟨peer, member⟩ := List.exists_mem_of_ne_nil asked somebody
    have waited : peer ∈ (StatusCheck.ofPeers number head asked).waitingFor.toList :=
      PeerSet.mem_ofList.mpr member
    rw [empty] at waited
    cases waited
  apart := by simp [StatusCheck.ofPeers]
  covers := by simp [StatusCheck.ofPeers]

/-- An answer moves its sender from those waited for to those that have answered. -/
theorem Awaits.record {lastCheck : UInt64} {check : StatusCheck} {peer : PeerId} {header : Header}
    (awaits : Awaits lastCheck asked check) (waiting : check.isWaitingFor peer = true)
    (incomplete : (check.record peer header).isComplete = false) :
    Awaits lastCheck asked (check.record peer header) := by
  have held := StatusCheck.isWaitingFor_iff.mp waiting
  have left : (check.record peer header).waitingFor.toList ≠ [] := fun empty => by
    simp [StatusCheck.isComplete_iff.mpr empty] at incomplete
  rw [StatusCheck.record_of_waiting waiting] at left ⊢
  refine ⟨awaits.number, left, fun other => ?_, fun other => ?_⟩
  · simp only [PeerSet.mem_erase, List.map_append, List.map_cons, List.map_nil, List.mem_append,
      List.mem_singleton]
    rintro ⟨member, different⟩ (answered | same)
    · exact awaits.apart other member answered
    · exact different same
  · rw [awaits.covers]
    simp only [PeerSet.mem_erase, List.map_append, List.map_cons, List.map_nil, List.mem_append,
      List.mem_singleton]
    by_cases same : other = peer
    · subst same; simp [held]
    · simp [same]

theorem Pursues.asks_no_status {pursuit : Pursuit}
    (pursues : Pursues directory before pursuit bare) :
    bare.outputs.filterMap Output.asked? = [] := by
  cases pursues <;> rfl

theorem Transition.sound (transition : Transition judge directory store before input bare after)
    (sound : Sound asked before) :
    Sound (match bare.outputs.filterMap Output.asked? with
      | [] => asked
      | renewed => renewed) bare.synchronizer := by
  cases transition with
  | ignored | unsolicited | malicious => exact ⟨sound.behind, sound.tracked, sound.awaiting⟩
  | unasked phase window => exact .of_idle phase
  | @checkStarted head chosen checkOffset number phase window somebody counted =>
    -- The status requests of this step take the place of those of the check before.
    have renewed : (chosen.map Output.sendStatusRequest ++
        [Output.schedule (.statusWindow number) before.settings.statusWindow]).filterMap
          Output.asked? = chosen := by
      simp [Output.asked?, Function.comp_def]
    refine .of_checking rfl ?_
    rw [renewed]
    obtain ⟨first, rest, rfl⟩ := List.exists_cons_of_ne_nil somebody
    exact .ofPeers somebody
  | answered phase waiting incomplete =>
    exact .of_checking rfl ((sound.awaiting _ phase).record waiting incomplete)
  | checkClosed closes nothing => exact .of_idle rfl
  | resumed resumes pursues =>
    simp only [pursues.asks_no_status]
    exact pursues.sound (resumes.tracks sound)
  | accepted phase verdict =>
    have behind := sound.behind _ phase
    exact .of_syncing rfl behind fun pending held => nomatch held
  | @adopted header other ahead =>
    cases phase : before.phase with
    | idle head => exact .of_idle rfl
    | checking check =>
      obtain ⟨number, waiting, apart, covers⟩ := sound.awaiting check phase
      exact .of_checking rfl ⟨number, waiting, apart, covers⟩
    | syncing pursuit => exact absurd (by rw [phase]; rfl) other
  | satisfied reached => exact .of_idle rfl

end

/-! ## Counters that stay within their words -/

def StartsCheck (directory : Directory) (before : Synchronizer) (input : Input) : Prop :=
  input = .checkDue ∧ before.phase.kind = .idle ∧
    ∃ asked checkOffset, before.checkWindow directory = .ok (asked, checkOffset) ∧ asked ≠ []

def CallsForRequest (directory : Directory) (before : Synchronizer) (input : Input) : Prop :=
  ∃ pursuit metrics, Resumes directory before input pursuit metrics ∧ Asks directory pursuit

/-- The offset of a limited check stays below twice the number of peers. -/
theorem size_lt_of_checkWindow {directory : Directory} {before : Synchronizer} {fault : Fault}
    (failed : before.checkWindow directory = .error fault) :
    fault = .additionOverflow ∧ UInt64.size < 2 * directory.peers.length := by
  unfold checkWindow at failed
  split at failed
  next limit limited =>
    dsimp only at failed
    split at failed
    next few =>
      split at failed
      next room => cases failed
      next full =>
        cases failed
        have offset : before.checkOffset % directory.peers.length < directory.peers.length :=
          Nat.mod_lt _ (Nat.zero_lt_of_lt few)
        exact ⟨rfl, by omega⟩
    next => cases failed
  next => cases failed

theorem Overflows.cause {directory : Directory} {before : Synchronizer} {input : Input}
    {fault : Fault} (overflows : Overflows directory before input fault) :
    fault = .additionOverflow ∧ (UInt64.size < 2 * directory.peers.length ∨
      StartsCheck directory before input ∧ before.lastCheck.toNat + 1 = UInt64.size ∨
      CallsForRequest directory before input ∧
        before.nextRequest.number.toNat + 1 = UInt64.size) := by
  cases overflows with
  | offset phase failed =>
    obtain ⟨same, large⟩ := size_lt_of_checkWindow failed
    exact ⟨same, .inl large⟩
  | check phase window somebody failed =>
    obtain ⟨same, full⟩ := increment_eq_error_iff.mp failed
    have idle := Phase.kind_eq_idle_iff.mpr ⟨_, phase⟩
    exact ⟨same, .inr (.inl ⟨⟨rfl, idle, _, _, window, somebody⟩, full⟩)⟩
  | request resumes asks failed =>
    obtain ⟨same, full⟩ := RequestId.next_eq_error_iff.mp failed
    exact ⟨same, .inr (.inr ⟨⟨_, _, resumes, asks⟩, full⟩)⟩

/-! ## Runs -/

section
variable {settings : Settings} {head : Header} {judge : Judge σ} {history : History σ}
  {synchronizer : Synchronizer}

theorem Run.sound (run : Run settings head judge history synchronizer) :
    Sound history.lastAsked synchronizer := by
  refine run.keeps (.of_idle rfl) fun history before record bare _ ih transition same => ?_
  have renewed := transition.sound ih
  rw [History.lastAsked, same]
  exact renewed

/-- A pursuit is behind its target, and the peer asked last stands at the back of its queue; a check
awaits exactly the peers it has asked and not heard of. A step breaks off only by an overflow, and
not before the requests or the checks of the run, with those of the step, have used up their
numbers. -/
theorem Run.invariant_and_no_overflow (run : Run settings head judge history synchronizer) :
    (∀ pursuit, synchronizer.phase = .syncing pursuit →
      pursuit.head.version < pursuit.target.version ∧
      ∀ peer id, pursuit.pending = some ⟨peer, id⟩ →
        pursuit.candidates.peers ≠ [] ∧ pursuit.candidates.peers.getLast? = some peer ∧
        id.number < synchronizer.nextRequest.number) ∧
    (∀ check, synchronizer.phase = .checking check →
      check.number = synchronizer.lastCheck ∧ check.waitingFor.toList ≠ [] ∧
      (∀ peer, peer ∈ check.waitingFor.toList → peer ∉ check.answers.map Prod.fst) ∧
      ∀ peer, peer ∈ history.lastAsked ↔
        peer ∈ check.waitingFor.toList ∨ peer ∈ check.answers.map Prod.fst) ∧
    ∀ directory store input,
      (∀ fault, synchronizer.handle judge directory store input = .error fault →
        fault = .additionOverflow) ∧
      (directory.peers.length < UInt64.size / 2 →
        (CallsForRequest directory synchronizer input →
          history.requestsSent + 1 < UInt64.size - 1) →
        (StartsCheck directory synchronizer input →
          history.checksStarted + 1 < UInt64.size - 1) →
        ∃ reaction after,
          synchronizer.handle judge directory store input = .ok (reaction, after)) := by
  obtain ⟨behind, tracked, awaiting⟩ := run.sound
  refine ⟨fun pursuit phase => ⟨behind pursuit phase, fun peer id held => ?_⟩,
    fun check phase => ?_, fun directory store input => ?_⟩
  · obtain ⟨last, numbered⟩ := tracked pursuit phase _ held
    refine ⟨fun empty => ?_, last, UInt64.lt_iff_toNat_lt.mpr numbered⟩
    simp [empty] at last
  · obtain ⟨number, waiting, apart, covers⟩ := awaiting check phase
    exact ⟨number, waiting, apart, covers⟩
  · rcases handle_cases judge directory store synchronizer input with
      ⟨bare, after, _, step⟩ | ⟨fault, overflows, step⟩
    · exact ⟨fun fault failed => (by cases step.symm.trans failed),
        fun _ _ _ => ⟨bare.withVersions, after, step⟩⟩
    · obtain ⟨same, cause⟩ := overflows.cause
      refine ⟨fun other failed => ?_, fun few requests checks => ?_⟩
      · cases step.symm.trans failed
        exact same
      · have sent := run.nextRequest
        have started := run.lastCheck
        simp only [UInt64.size] at cause few requests checks
        rcases cause with large | ⟨starts, full⟩ | ⟨calls, full⟩
        · omega
        · have bound := checks starts
          omega
        · have bound := requests calls
          omega

end

/-- Peer 4 is asked first and times out, peer 7 is asked next, and an advertisement of peer 9 raises
the target meanwhile. -/
theorem invariant_and_no_overflow_after_timeout :
    ∃ (history : History (List Verdict)) (synchronizer : Synchronizer) (pursuit : Pursuit),
      Run {} .genesis Verification.rehearsed history synchronizer ∧
      synchronizer.phase = .syncing pursuit ∧
      pursuit.candidates.peers = [⟨9⟩, ⟨4⟩, ⟨4⟩, ⟨7⟩] ∧ pursuit.pending = some ⟨⟨7⟩, ⟨2⟩⟩ ∧
      pursuit.candidates.peers.getLast? = some ⟨7⟩ ∧
      (2 : UInt64) < synchronizer.nextRequest.number ∧
      ∃ reaction after, synchronizer.handle Verification.rehearsed (PeerSet.ofList [⟨4⟩, ⟨9⟩]) []
        (.requestTimedOut ⟨7⟩ ⟨2⟩) = .ok (reaction, after) := by
  have run : Run {} .genesis Verification.rehearsed _ _ := Run.start.replay
    [(PeerSet.ofList [⟨4⟩, ⟨7⟩], .localRequest ⟨⟨3⟩, 0, 0, .zero⟩ [⟨4⟩, ⟨7⟩, ⟨4⟩]),
      (PeerSet.ofList [⟨4⟩, ⟨7⟩], .requestTimedOut ⟨4⟩ ⟨1⟩),
      (PeerSet.ofList [⟨4⟩, ⟨9⟩], .advertisement ⟨9⟩ ⟨⟨5⟩, 0, 0, .zero⟩)] [] rfl
  obtain ⟨syncing, -, total⟩ := run.invariant_and_no_overflow
  obtain ⟨-, last, numbered⟩ := (syncing _ rfl).2 _ _ rfl
  obtain ⟨-, step⟩ := total (PeerSet.ofList [⟨4⟩, ⟨9⟩]) [] (.requestTimedOut ⟨7⟩ ⟨2⟩)
  refine ⟨_, _, _, run, rfl, rfl, rfl, last, numbered, ?_⟩
  apply step
  · decide
  · intro _; decide
  · intro _; decide

end Catchup.Synchronizer
