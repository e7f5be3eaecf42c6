import Catchup.Proofs.Synchronizer.Run

/-! Whatever a synchronizer waits for, a timer is set that ends the wait. -/

set_option autoImplicit false

namespace Catchup

/-- The timer that ends the wait of a phase, if it waits for anything. -/
def Phase.guard? : Phase → Option Timeout
  | .idle _ => none
  | .checking check => some (.statusWindow check.number)
  | .syncing pursuit =>
    match pursuit.pending with
    | some pending => some (.request pending.peer pending.id)
    | none =>
      if pursuit.candidates.peers = [] then none else some (.commit pursuit.head.version)

namespace Synchronizer

variable {σ : Type} {judge : Judge σ} {directory : Directory} {store after : σ}
  {before : Synchronizer} {input : Input} {bare : Reaction} {timers : Multiset Timeout}

theorem not_ignores_guard {timeout : Timeout} (guard : before.phase.guard? = some timeout) :
    ¬ Ignores directory before timeout.input := by
  intro ignores
  cases phase : before.phase with
  | idle head => simp [phase, Phase.guard?] at guard
  | checking check =>
    rw [phase] at guard
    cases guard
    cases ignores with
    | statusWindowClosed stale => exact stale check phase rfl
  | syncing pursuit =>
    rw [phase, Phase.guard?] at guard
    split at guard
    next pending held =>
      cases guard
      cases ignores with
      | requestTimedOut stale => exact stale pursuit phase held
    next free =>
      split at guard
      next => cases guard
      next =>
        cases guard
        cases ignores with
        | commitOverdue obsolete =>
          have less := obsolete pursuit phase
          rw [Version.lt_iff] at less
          exact Nat.lt_irrefl _ less

/-- A request that is still pending when a pursuit goes on has not timed out just now. -/
theorem Resumes.guard_mem {pursuit : Pursuit} {metrics : List Metric} {pending : PendingRequest}
    (resumes : Resumes directory before input pursuit metrics)
    (held : pursuit.pending = some pending)
    (guarded : ∀ timeout, before.phase.guard? = some timeout → timeout ∈ timers) :
    .request pending.peer pending.id ∈ remaining timers input := by
  have kept {earlier : Pursuit} (phase : before.phase = .syncing earlier)
      (same : earlier.pending = some pending) : .request pending.peer pending.id ∈ timers := by
    apply guarded
    rw [phase, Phase.guard?, same]
  cases resumes with
  | check | timeout | advertised | requested => cases held
  | ledgerUpdate phase ahead => exact kept phase held
  | overdue phase late => exact mem_remaining (kept phase held) (by simp [Timeout.input])
  | raised phase known ahead => exact kept phase held

theorem Pursues.guard_mem {pursuit : Pursuit} (pursues : Pursues directory before pursuit bare)
    (held : ∀ pending, pursuit.pending = some pending → .request pending.peer pending.id ∈ timers) :
    ∀ timeout, bare.synchronizer.phase.guard? = some timeout →
      timeout ∈ timers + (bare.outputs.filterMap Output.timeout? : List Timeout) := by
  intro timeout guard
  cases pursues with
  | reached done => cases guard
  | waiting behind busy =>
    obtain ⟨pending, same⟩ := Option.ne_none_iff_exists'.mp busy
    have request : Phase.guard? (.syncing pursuit) = some timeout := guard
    rw [Phase.guard?, same] at request
    cases request
    exact Multiset.mem_add.mpr (.inl (held pending same))
  | exhausted behind free gone =>
    have nobody : Phase.guard? (.syncing { pursuit with candidates := .empty }) = some timeout :=
      guard
    simp [Phase.guard?, free, Candidates.empty] at nobody
  | asked behind free found next =>
    cases guard
    exact Multiset.mem_add.mpr (.inr (by simp [asking, Output.timeout?]))

theorem Transition.guard_mem
    (transition : Transition judge directory store before input bare after)
    (guarded : ∀ timeout, before.phase.guard? = some timeout → timeout ∈ timers) :
    ∀ timeout, bare.synchronizer.phase.guard? = some timeout →
      timeout ∈ remaining timers input +
        (bare.outputs.filterMap Output.timeout? : List Timeout) := by
  intro timeout guard
  rw [Multiset.mem_add]
  cases transition with
  | ignored ignores =>
    left
    -- It has not expired just now, since its expiry is not ignored.
    apply mem_remaining (guarded timeout guard)
    rintro rfl
    exact not_ignores_guard guard ignores
  | unasked phase window =>
    have idle : before.phase.guard? = some timeout := guard
    simp [phase, Phase.guard?] at idle
  | checkStarted phase window somebody number =>
    cases guard
    right
    simp [Output.timeout?, StatusCheck.ofPeers]
  | @answered check peer header phase waiting incomplete =>
    have same : Phase.guard? (.checking (check.record peer header)) = before.phase.guard? := by
      rw [StatusCheck.record_of_waiting waiting, phase]
      rfl
    exact .inl (guarded timeout (same.symm.trans guard))
  | checkClosed closes nothing => cases guard
  | resumed resumes pursues =>
    rw [← Multiset.mem_add]
    exact pursues.guard_mem (fun pending held => resumes.guard_mem held guarded) timeout guard
  | unsolicited phase verdict => exact .inl (guarded timeout guard)
  | malicious phase verdict => exact .inl (guarded timeout guard)
  | @accepted pursuit peer extension after phase verdict =>
    have commit : Phase.guard? (.syncing { pursuit with pending := none }) = some timeout := guard
    simp only [Phase.guard?] at commit
    split at commit
    next => cases commit
    next =>
      cases commit
      right
      simp [Output.timeout?]
  | @adopted header other ahead =>
    have same : (before.phase.withHead header).guard? = before.phase.guard? := by
      cases phase : before.phase with
      | idle head => rfl
      | checking check => rfl
      | syncing pursuit => exact absurd (by rw [phase]; rfl) other
    exact .inl (guarded timeout (same.symm.trans guard))
  | satisfied reached => cases guard

/-! ## The end of a wait -/

def OutOfCandidates (synchronizer : Synchronizer) : Prop :=
  ∃ pursuit, synchronizer.phase = .syncing pursuit ∧
    pursuit.pending = none ∧ pursuit.candidates.peers = []

def HasAsked (synchronizer : Synchronizer) (id : RequestId) : Prop :=
  ∃ pursuit peer, synchronizer.phase = .syncing pursuit ∧ pursuit.pending = some ⟨peer, id⟩

theorem Pursues.moves {pursuit : Pursuit} (pursues : Pursues directory before pursuit bare)
    (free : pursuit.pending = none) :
    bare.synchronizer.phase.kind = .idle ∨ OutOfCandidates bare.synchronizer ∨
      HasAsked bare.synchronizer before.nextRequest := by
  cases pursues with
  | reached done => exact .inl rfl
  | waiting behind busy => exact absurd free busy
  | exhausted behind _ gone => exact .inr (.inl ⟨_, rfl, free, rfl⟩)
  | asked behind _ found next => exact .inr (.inr ⟨_, _, rfl, rfl⟩)

theorem idle_or_out_of_candidates (unguarded : before.phase.guard? = none) :
    before.phase.kind = .idle ∨ OutOfCandidates before := by
  cases phase : before.phase with
  | idle head => exact .inl rfl
  | checking check => rw [phase] at unguarded; cases unguarded
  | syncing pursuit =>
    rw [phase, Phase.guard?] at unguarded
    split at unguarded
    next => cases unguarded
    next free =>
      split at unguarded
      next nobody => exact .inr ⟨pursuit, phase, free, nobody⟩
      next => cases unguarded

/-- When the timer of the wait expires, the node gives up, asks anew or has no one left to ask. -/
theorem Transition.moves {timeout : Timeout}
    (transition : Transition judge directory store before timeout.input bare after)
    (guard : before.phase.guard? = some timeout) :
    bare.synchronizer.phase.kind = .idle ∨ OutOfCandidates bare.synchronizer ∨
      HasAsked bare.synchronizer before.nextRequest := by
  generalize reported : timeout.input = input at transition
  cases transition with
  | ignored ignores => exact absurd (reported ▸ ignores) (not_ignores_guard guard)
  | checkClosed closes nothing => exact .inl rfl
  | @resumed _ pursuit metrics reaction resumes pursues =>
    have free : pursuit.pending = none := by
      cases resumes with
      | check | timeout => rfl
      | overdue phase late =>
        -- Only a pursuit with nothing pending waits for a commit.
        cases timeout with
        | statusWindow | request => cases reported
        | commit version =>
          rw [phase, Phase.guard?] at guard
          split at guard
          next held => cases guard
          next free => exact free
      | ledgerUpdate | advertised | raised | requested => cases timeout <;> cases reported
    exact pursues.moves free
  | unasked | checkStarted | answered | unsolicited | malicious | accepted | adopted | satisfied =>
    cases timeout <;> cases reported

section
variable {settings : Settings} {head : Header} {history : History σ} {synchronizer : Synchronizer}

theorem Run.guard_mem (run : Run settings head judge history synchronizer) :
    ∀ timeout, synchronizer.phase.guard? = some timeout → timeout ∈ history.outstanding := by
  refine run.keeps (fun _ guard => nomatch guard) ?_
  intro history before record bare _ ih transition same
  have kept := transition.guard_mem ih
  rw [History.outstanding, same]
  exact kept

/-- Whatever a node waits for, a timer is set that ends the wait: it stops for good only when it is
out of candidates. -/
theorem Run.wait_ends (run : Run settings head judge history synchronizer) :
    (∀ check, synchronizer.phase = .checking check →
      .statusWindow check.number ∈ history.outstanding) ∧
    (∀ pursuit peer id, synchronizer.phase = .syncing pursuit →
      pursuit.pending = some ⟨peer, id⟩ → .request peer id ∈ history.outstanding) ∧
    (∀ pursuit, synchronizer.phase = .syncing pursuit → pursuit.pending = none →
      pursuit.candidates.peers = [] ∨ .commit pursuit.head.version ∈ history.outstanding) ∧
    (synchronizer.phase.kind = .idle ∨ OutOfCandidates synchronizer ∨
      ∃ timeout ∈ history.outstanding, ∀ directory store reaction after,
        synchronizer.handle judge directory store timeout.input = .ok (reaction, after) →
        reaction.synchronizer.phase.kind = .idle ∨ OutOfCandidates reaction.synchronizer ∨
          HasAsked reaction.synchronizer synchronizer.nextRequest) := by
  have guarded := run.guard_mem
  refine ⟨fun check phase => guarded _ (by rw [phase]; rfl),
    fun pursuit peer id phase held => guarded _ (by rw [phase, Phase.guard?, held]),
    fun pursuit phase free => ?_, ?_⟩
  · by_cases nobody : pursuit.candidates.peers = []
    · exact .inl nobody
    · exact .inr (guarded _ (by rw [phase, Phase.guard?, free]; exact if_neg nobody))
  · cases guard : synchronizer.phase.guard? with
    | none =>
      rcases idle_or_out_of_candidates guard with idle | out
      · exact .inl idle
      · exact .inr (.inl out)
    | some timeout =>
      refine .inr (.inr ⟨timeout, guarded timeout guard, ?_⟩)
      intro directory store reaction after done
      obtain ⟨bare, transition, rfl⟩ := transition_of_handle done
      exact transition.moves guard

end

/-- The response of peer 4 is accepted, then its request times out: the commit is waited for. -/
theorem wait_ends_after_acceptance :
    ∃ (history : History (List Verdict)) (synchronizer : Synchronizer) (pursuit : Pursuit),
      Run {} .genesis Verification.rehearsed history synchronizer ∧
      synchronizer.phase = .syncing pursuit ∧ pursuit.pending = none ∧
      pursuit.candidates.peers = [⟨7⟩, ⟨4⟩] ∧ .commit ⟨0⟩ ∈ history.outstanding := by
  have run : Run {} .genesis Verification.rehearsed _ _ := Run.start.replay
    [(PeerSet.ofList [⟨4⟩, ⟨7⟩], .localRequest ⟨⟨3⟩, 0, 0, .zero⟩ [⟨4⟩, ⟨7⟩]),
      (PeerSet.ofList [⟨4⟩], .syncResponse ⟨4⟩ ⟨.genesis, [], .genesis⟩),
      (PeerSet.ofList [⟨4⟩], .requestTimedOut ⟨4⟩ ⟨1⟩)] [] rfl
  obtain ⟨-, -, free, -⟩ := run.wait_ends
  refine ⟨_, _, _, run, rfl, rfl, rfl, ?_⟩
  rcases free _ rfl rfl with nobody | set
  · cases nobody
  · exact set

end Synchronizer

end Catchup
