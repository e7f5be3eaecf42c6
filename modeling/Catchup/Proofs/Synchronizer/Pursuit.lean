import Catchup.Proofs.Synchronizer.Transition

/-! Steps while a pursuit is on.

Of all that an input can lead to, this is what is left then: it is ignored, a response is rejected
or accepted, the pursuit goes on in one way or another, or a local request finds nothing to do.
What only a status check or an idle node can do is ruled out here once, so that the proofs about
pursuits need not go through it again. -/

set_option autoImplicit false

namespace Catchup.Synchronizer

variable {σ : Type} {judge : Judge σ} {directory : Directory} {store after : σ}
  {before : Synchronizer} {input : Input} {bare : Reaction} {pursuit resumed : Pursuit}
  {metrics : List Metric}

/-- The inputs that make a pursuit go on, and how it stands then. A local request puts another in
its place. -/
inductive GoesOn (directory : Directory) (pursuit : Pursuit) : Input → Pursuit → Prop where
  | timeout {peer : PeerId} {id : RequestId} : pursuit.pending = some ⟨peer, id⟩ →
      GoesOn directory pursuit (.requestTimedOut peer id)
        { pursuit with candidates := (pursuit.candidates.rotatePast peer).2, pending := none }
  | ledgerUpdate {header : Header} : header.isAheadOf pursuit.head = true →
      GoesOn directory pursuit (.ledgerUpdate header) (pursuit.withHead header)
  | overdue {expected : Version} : ¬ expected < pursuit.head.version →
      GoesOn directory pursuit (.commitOverdue expected) pursuit
  | raised {peer : PeerId} {header : Header} : directory.has peer = true →
      header.isAheadOf pursuit.target = true →
      GoesOn directory pursuit (.advertisement peer header)
        ({ pursuit with target := header }.withCandidate peer)
  | replaced {target : Header} {peers : List PeerId} : target.isAheadOf pursuit.head = true →
      GoesOn directory pursuit (.localRequest target peers) (.ofPeers pursuit.head peers target)

/-- What a step comes to while the pursuit is on. -/
inductive PursuitStep (directory : Directory) (before : Synchronizer) (pursuit : Pursuit) :
    Input → Reaction → Prop where
  | ignored {input : Input} : Ignores directory before input →
      PursuitStep directory before pursuit input before.quietly
  | rejected {peer : PeerId} {extension : Extension} {outputs : List Output}
      {metrics : List Metric} :
      outputs = [] ∨ (∃ reason, outputs = [.ban peer reason before.settings.banDuration]) →
      PursuitStep directory before pursuit (.syncResponse peer extension)
        ⟨before, outputs, metrics⟩
  | accepted {peer : PeerId} {extension : Extension} :
      PursuitStep directory before pursuit (.syncResponse peer extension)
        ⟨before.enter (.syncing { pursuit with pending := none }),
          [.prioritize peer,
            .schedule (.commit pursuit.head.version) before.settings.commitTimeout],
          [.responseAccepted]⟩
  | resumed {input : Input} {resumed : Pursuit} {metrics : List Metric} {reaction : Reaction} :
      GoesOn directory pursuit input resumed → Pursues directory before resumed reaction →
      PursuitStep directory before pursuit input
        { reaction with metrics := metrics ++ reaction.metrics }
  | satisfied {target : Header} {peers : List PeerId} :
      target.isAheadOf pursuit.head = false →
      PursuitStep directory before pursuit (.localRequest target peers)
        (before.enter (.idle pursuit.head)).quietly

theorem not_closes_of_syncing (phase : before.phase = .syncing pursuit) (check : StatusCheck) :
    ¬ Closes before input check := by
  rintro (⟨checking, -, -⟩ | ⟨checking⟩) <;> cases phase.symm.trans checking

theorem head_of_syncing (phase : before.phase = .syncing pursuit) : before.head = pursuit.head :=
  congrArg Phase.head phase

theorem Resumes.goesOn (resumes : Resumes directory before input resumed metrics)
    (phase : before.phase = .syncing pursuit) : GoesOn directory pursuit input resumed := by
  cases resumes with
  | check closes finds => exact absurd closes (not_closes_of_syncing phase _)
  | timeout syncing out =>
    cases phase.symm.trans syncing
    exact .timeout out
  | ledgerUpdate syncing ahead =>
    cases phase.symm.trans syncing
    exact .ledgerUpdate ahead
  | overdue syncing late =>
    cases phase.symm.trans syncing
    exact .overdue late
  | advertised idle known ahead => cases phase.symm.trans idle
  | raised syncing known ahead =>
    cases phase.symm.trans syncing
    exact .raised known ahead
  | requested ahead =>
    rw [head_of_syncing phase] at ahead ⊢
    exact .replaced ahead

theorem Transition.pursuitStep
    (transition : Transition judge directory store before input bare after)
    (phase : before.phase = .syncing pursuit) :
    PursuitStep directory before pursuit input bare := by
  cases transition with
  | ignored ignores => exact .ignored ignores
  | resumed resumes pursues => exact .resumed (resumes.goesOn phase) pursues
  | unsolicited syncing judged => exact .rejected (.inl rfl)
  | malicious syncing judged => exact .rejected (.inr ⟨_, rfl⟩)
  | accepted syncing judged =>
    cases phase.symm.trans syncing
    exact .accepted
  | satisfied low =>
    rw [head_of_syncing phase] at low
    have idle : before.phase.toIdle = .idle pursuit.head := by rw [phase]; rfl
    rw [idle]
    exact .satisfied low
  | checkClosed closes nothing => exact absurd closes (not_closes_of_syncing phase _)
  | unasked idle | checkStarted idle | answered idle => cases phase.symm.trans idle
  | adopted other => exact absurd (congrArg Phase.kind phase) other

/-- A pursuit that goes on ends at its target, or goes on towards it with what is out still out. -/
theorem Pursues.ends_or_stays (pursues : Pursues directory before pursuit bare) :
    (pursuit.isSynced = true ∧ bare.synchronizer.phase = .idle pursuit.head) ∨
    (pursuit.isSynced = false ∧ ∃ next, bare.synchronizer.phase = .syncing next ∧
      next.head = pursuit.head ∧ next.target = pursuit.target ∧
      ∀ pending, pursuit.pending = some pending → next.pending = some pending) := by
  cases pursues with
  | reached synced => exact .inl ⟨synced, rfl⟩
  | waiting behind out => exact .inr ⟨behind, _, rfl, rfl, rfl, fun _ held => held⟩
  | exhausted behind free gone => exact .inr ⟨behind, _, rfl, rfl, rfl, fun _ held => held⟩
  | asked behind free found number =>
    exact .inr ⟨behind, _, rfl, rfl, rfl, fun _ held => nomatch free.symm.trans held⟩

end Catchup.Synchronizer
