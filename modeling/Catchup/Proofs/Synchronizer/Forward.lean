import Catchup.Proofs.Head
import Catchup.Proofs.Synchronizer.PeerControl
import Catchup.Proofs.Synchronizer.Turns
import Catchup.Proofs.Synchronizer.Pursuit

/-! Heads and targets only move forward.

Every handler takes the phase apart and puts it together again. What comes out is the same pursuit,
one step on: its head is moved by reports alone, its target by advertisements alone, and both only
to higher versions. A pursuit ends where its ledger has got to the target, or where someone on this
node is content with less. -/

set_option autoImplicit false

namespace Catchup

/-- The target when the input has come in: a connected peer may have told of a header ahead. -/
def Input.raised (directory : Directory) (target : Header) : Input → Header
  | .advertisement peer header => if directory.has peer then target.adopt header else target
  | _ => target

/-- The inputs that end a pursuit. -/
def Pursuit.EndedBy (pursuit : Pursuit) : Input → Prop
  | .ledgerUpdate header => pursuit.target.version ≤ header.version
  | .localRequest target _ => target.version ≤ pursuit.head.version
  | _ => False

section
variable {directory : Directory} {header target : Header} {peer : PeerId}

theorem Input.raised_of_connected (known : directory.has peer = true) :
    (Input.advertisement peer header).raised directory target = target.adopt header :=
  if_pos known

theorem Input.raised_of_stranger (strange : directory.has peer = false) :
    (Input.advertisement peer header).raised directory target = target :=
  if_neg (Bool.eq_false_iff.mp strange)

theorem Input.le_raised (input : Input) (directory : Directory) (target : Header) :
    target.version ≤ (input.raised directory target).version := by
  cases input with
  | advertisement peer header =>
    cases known : directory.has peer with
    | true => exact raised_of_connected known ▸ target.le_adopt header
    | false => exact raised_of_stranger known ▸ Version.le_refl _
  | _ => exact Version.le_refl _

end

namespace Synchronizer

variable {σ : Type}

/-- The same pursuit, one step on. -/
structure Continues (directory : Directory) (input : Input) (outputs : List Output)
    (pursuit next : Pursuit) : Prop where
  head : next.head = input.adopted pursuit.head
  target : next.target = input.raised directory pursuit.target
  pending : ∀ pending, pursuit.pending = some pending → Spares pending input outputs →
    next.pending = some pending
  kept : ∀ peer ∈ pursuit.candidates.peers, directory.has peer = true →
    peer ∈ next.candidates.peers
  added : ∀ peer ∈ next.candidates.peers, peer ∉ pursuit.candidates.peers →
    ∃ header, input = .advertisement peer header

/-! ## Steps -/

section
variable {judge : Judge σ} {directory : Directory} {store after : σ} {before : Synchronizer}
  {input : Input} {bare : Reaction} {pursuit resumed next : Pursuit} {metrics : List Metric}

theorem GoesOn.target (goesOn : GoesOn directory pursuit input resumed)
    (own : ∀ target peers, input ≠ .localRequest target peers) :
    resumed.target = input.raised directory pursuit.target := by
  cases goesOn with
  | timeout out | ledgerUpdate ahead | overdue late => rfl
  | raised known ahead => exact ((if_pos known).trans (Header.adopt_of_ahead ahead)).symm
  | replaced ahead => exact absurd rfl (own _ _)

theorem GoesOn.keeps_pending (goesOn : GoesOn directory pursuit input resumed)
    {pending : PendingRequest} (held : pursuit.pending = some pending)
    (timeout : input ≠ .requestTimedOut pending.peer pending.id)
    (own : ∀ target peers, input ≠ .localRequest target peers) :
    resumed.pending = some pending := by
  cases goesOn with
  | timeout out =>
    cases held.symm.trans out
    exact absurd rfl timeout
  | ledgerUpdate ahead | overdue late | raised known ahead => exact held
  | replaced ahead => exact absurd rfl (own _ _)

/-- A pursuit that goes on is at its target only where the input has ended it. -/
theorem GoesOn.endedBy_iff (goesOn : GoesOn directory pursuit input resumed)
    (behind : pursuit.head.version < pursuit.target.version) :
    pursuit.EndedBy input ↔ resumed.isSynced = true := by
  rw [Pursuit.isSynced, decide_eq_true_iff]
  rw [Version.lt_iff] at behind
  -- Where head and target are still apart, the input is not one that ends anything.
  have ongoing {other : Pursuit} (short : other.head.version.toNat < other.target.version.toNat) :
      False ↔ other.target.version ≤ other.head.version := by
    rw [Version.le_iff]
    exact ⟨False.elim, fun reached => absurd short (Nat.not_lt.mpr reached)⟩
  cases goesOn with
  | timeout out | overdue late => exact ongoing behind
  | ledgerUpdate ahead | replaced ahead => exact Iff.rfl
  | raised known ahead => exact ongoing (behind.trans (Header.isAheadOf_iff.mp ahead))

theorem Ignores.not_endedBy (ignores : Ignores directory before input)
    (phase : before.phase = .syncing pursuit)
    (behind : pursuit.head.version < pursuit.target.version) : ¬ pursuit.EndedBy input := by
  intro ended
  cases ignores with
  | ledgerUpdate known =>
    rw [head_of_syncing phase, Header.isAheadOf_eq_false_iff] at known
    simp only [Pursuit.EndedBy, Version.le_iff, Version.lt_iff] at known ended behind
    omega
  | _ => exact ended

theorem Ignores.raised (ignores : Ignores directory before input)
    (phase : before.phase = .syncing pursuit) :
    input.raised directory pursuit.target = pursuit.target := by
  cases ignores with
  | stranger strange => exact Input.raised_of_stranger strange
  | @advertisement peer header idle known =>
    have low := known pursuit phase
    cases connected : directory.has peer with
    | true => exact (Input.raised_of_connected connected).trans (Header.adopt_of_known low)
    | false => exact Input.raised_of_stranger connected
  | _ => rfl

/-- A pursuit is over after the step exactly if the input has ended it. -/
theorem Transition.ended_or_on
    (transition : Transition judge directory store before input bare after)
    (phase : before.phase = .syncing pursuit)
    (behind : pursuit.head.version < pursuit.target.version) :
    (pursuit.EndedBy input ∧ bare.synchronizer.phase = .idle (input.adopted pursuit.head)) ∨
    (¬ pursuit.EndedBy input ∧ ∃ next, bare.synchronizer.phase = .syncing next) := by
  -- However a pursuit ends, the head is where the input has put it.
  have moved {header : Header} (idle : bare.synchronizer.phase = .idle header) :
      bare.synchronizer.phase = .idle (input.adopted pursuit.head) := by
    rw [← head_of_syncing phase, ← transition.head, idle, head_of_phase idle]
    rfl
  cases transition.pursuitStep phase with
  | ignored ignores => exact .inr ⟨ignores.not_endedBy phase behind, pursuit, phase⟩
  | rejected none_or_ban => exact .inr ⟨id, pursuit, phase⟩
  | accepted => exact .inr ⟨id, _, rfl⟩
  | resumed goesOn pursues =>
    have ended := goesOn.endedBy_iff behind
    rcases pursues.ends_or_stays with ⟨synced, idle⟩ | ⟨short, next, reached, -⟩
    · exact .inl ⟨ended.mpr synced, moved idle⟩
    · refine .inr ⟨fun done => ?_, next, reached⟩
      exact Bool.false_ne_true (short.symm.trans (ended.mp done))
  | satisfied low => exact .inl ⟨Header.isAheadOf_eq_false_iff.mp low, moved rfl⟩

theorem Transition.target (transition : Transition judge directory store before input bare after)
    (phase : before.phase = .syncing pursuit) (reached : bare.synchronizer.phase = .syncing next)
    (own : ∀ target peers, input ≠ .localRequest target peers) :
    next.target = input.raised directory pursuit.target := by
  cases transition.pursuitStep phase with
  | ignored ignores =>
    cases phase.symm.trans reached
    exact (ignores.raised phase).symm
  | rejected none_or_ban =>
    cases phase.symm.trans reached
    rfl
  | accepted =>
    cases reached
    rfl
  | resumed goesOn pursues =>
    rcases pursues.ends_or_stays with ⟨-, idle⟩ | ⟨-, other, same, -, target, -⟩
    · cases idle.symm.trans reached
    · cases same.symm.trans reached
      exact target.trans (goesOn.target own)
  | satisfied low => cases reached

theorem Transition.keeps_pending
    (transition : Transition judge directory store before input bare after)
    (phase : before.phase = .syncing pursuit) (reached : bare.synchronizer.phase = .syncing next)
    {pending : PendingRequest} (held : pursuit.pending = some pending)
    (spares : Spares pending input bare.outputs) : next.pending = some pending := by
  cases transition.pursuitStep phase with
  | ignored ignores =>
    cases phase.symm.trans reached
    exact held
  | rejected none_or_ban =>
    cases phase.symm.trans reached
    exact held
  | accepted => exact absurd List.mem_cons_self (spares.acceptance _)
  | resumed goesOn pursues =>
    rcases pursues.ends_or_stays with ⟨-, idle⟩ | ⟨-, other, same, -, -, kept⟩
    · cases idle.symm.trans reached
    · cases same.symm.trans reached
      exact kept pending (goesOn.keeps_pending held spares.timeout spares.pursuit)
  | satisfied low => cases reached

theorem Transition.continues
    (transition : Transition judge directory store before input bare after)
    (phase : before.phase = .syncing pursuit) (reached : bare.synchronizer.phase = .syncing next)
    (own : ∀ target peers, input ≠ .localRequest target peers) :
    Continues directory input bare.outputs pursuit next where
  head := by
    have moved := transition.head
    rwa [head_of_syncing phase, head_of_syncing reached] at moved
  target := transition.target phase reached own
  pending _ held spares := transition.keeps_pending phase reached held spares
  kept peer member known := by
    have counted := (transition.keeps_candidates phase reached own peer).1 known
    exact List.count_pos_iff.mp ((List.count_pos_iff.mpr member).trans_le counted)
  added peer member absent := by
    have more : pursuit.candidates.peers.count peer < next.candidates.peers.count peer := by
      rw [List.count_eq_zero.mpr absent]
      exact List.count_pos_iff.mpr member
    obtain ⟨-, header, given, -⟩ := (transition.keeps_candidates phase reached own peer).2 more
    exact ⟨header, given⟩

/-- A local request that is ahead puts another pursuit in the place of one that is on. -/
theorem Transition.replaces {target : Header} {peers : List PeerId}
    (transition : Transition judge directory store before (.localRequest target peers) bare after)
    (phase : before.phase = .syncing pursuit) (reached : bare.synchronizer.phase = .syncing next) :
    pursuit.head.version < target.version ∧ next.head = pursuit.head ∧ next.target = target := by
  cases transition.pursuitStep phase with
  | ignored ignores => cases ignores
  | satisfied low => cases reached
  | resumed goesOn pursues =>
    cases goesOn with
    | replaced ahead =>
      rcases pursues.ends_or_stays with ⟨-, idle⟩ | ⟨-, other, same, head, aim, -⟩
      · cases idle.symm.trans reached
      · cases same.symm.trans reached
        exact ⟨Header.isAheadOf_iff_lt.mp ahead, head, aim⟩

end

/-! ## Runs -/

section
variable {settings : Settings} {head : Header} {judge : Judge σ} {history since : History σ}
  {synchronizer first last : Synchronizer} {pursuit next : Pursuit}

theorem Run.head_eq (run : Run settings head judge history synchronizer) :
    synchronizer.head = history.inputs.foldr (fun input held => input.adopted held) head := by
  refine run.keeps rfl fun history before record bare _ ih transition _ => ?_
  rw [transition.head, ih]
  rfl

theorem Run.head_le (run : Run settings head judge history synchronizer) :
    ∀ record ∈ history, record.reaction.synchronizer.head.version ≤ synchronizer.head.version := by
  refine run.keeps (fun record member => absurd member List.not_mem_nil) ?_
  intro history before record bare _ ih transition same earlier member
  rcases List.mem_cons.mp member with rfl | member
  · rw [same]
    exact Version.le_refl _
  · have moved := record.input.le_adopted before.head
    rw [← transition.head] at moved
    exact Version.le_trans (ih earlier member) moved

/-- As long as a pursuit is on, its target is moved by advertisements and by nothing else. -/
theorem Episode.target (episode : Episode judge first since last)
    (phase : first.phase = .syncing pursuit) :
    ∃ next, last.phase = .syncing next ∧
      next.target = since.foldr (fun record target => record.input.raised record.directory target)
        pursuit.target ∧
      pursuit.target.version ≤ next.target.version := by
  refine episode.keeps ⟨pursuit, phase, rfl, Version.le_refl _⟩ ?_
  intro since before record bare _ ih transition _ own kind
  obtain ⟨middle, here, aim, above⟩ := ih
  obtain ⟨next, reached⟩ :=
    Phase.kind_eq_syncing_iff.mp (kind.trans (congrArg Phase.kind phase))
  have moved := transition.target here reached own
  have further := record.input.le_raised record.directory middle.target
  rw [← moved] at further
  refine ⟨next, reached, ?_, Version.le_trans above further⟩
  rw [moved, aim]
  rfl

/-- Reports alone move the head, and only upwards. A pursuit ends exactly when its ledger has got to
the target or a local request asks for no more than there is, and leaves the node idle; any other
step takes it on as it stands, or a local request replaces it. Until one does, connected peers alone
move the target, and only upwards. -/
theorem Run.forward_only (run : Run settings head judge history synchronizer) :
    synchronizer.head = history.inputs.foldr (fun input held => input.adopted held) head ∧
    (∀ record ∈ history,
      record.reaction.synchronizer.head.version ≤ synchronizer.head.version) ∧
    (∀ directory store input reaction after,
      synchronizer.handle judge directory store input = .ok (reaction, after) →
      reaction.synchronizer.head = input.adopted synchronizer.head ∧
      ∀ pursuit, synchronizer.phase = .syncing pursuit →
        (pursuit.EndedBy input →
          reaction.synchronizer.phase = .idle (input.adopted pursuit.head)) ∧
        (¬ pursuit.EndedBy input → ∃ next, reaction.synchronizer.phase = .syncing next ∧
          ((∀ target peers, input ≠ .localRequest target peers) →
            Continues directory input reaction.outputs pursuit next) ∧
          ∀ target peers, input = .localRequest target peers →
            pursuit.head.version < target.version ∧ next.head = pursuit.head ∧
              next.target = target)) ∧
    ∀ pursuit since last, synchronizer.phase = .syncing pursuit →
      Episode judge synchronizer since last →
      ∃ next, last.phase = .syncing next ∧
        next.target = since.foldr
          (fun record target => record.input.raised record.directory target) pursuit.target ∧
        pursuit.target.version ≤ next.target.version := by
  refine ⟨run.head_eq, run.head_le, fun directory store input reaction after done => ?_,
    fun pursuit since last phase episode => episode.target phase⟩
  obtain ⟨bare, transition, rfl⟩ := transition_of_handle done
  refine ⟨transition.head, fun pursuit phase => ?_⟩
  rcases transition.ended_or_on phase (run.sound.behind pursuit phase) with
    ⟨ended, idle⟩ | ⟨ongoing, next, reached⟩
  · exact ⟨fun _ => idle, fun ongoing => absurd ended ongoing⟩
  · refine ⟨fun ended => absurd ended ongoing, fun _ => ⟨next, reached, ?_, ?_⟩⟩
    · exact transition.continues phase reached
    · rintro target peers rfl
      exact transition.replaces phase reached

end

/-- Peer 7 raises the target to version 5, and peer 11, a stranger, does not raise it further. A
report of version 2 lets the pursuit go on, one of version 4 ends it as it stands at first. -/
theorem forward_only_to_raised_target :
    ∃ (history since : History (List Verdict)) (last : Synchronizer) (further done : Reaction)
      (reached next : Pursuit),
      Run {} .genesis Verification.rehearsed history afterFirstRequest ∧
      Episode Verification.rehearsed afterFirstRequest since last ∧
      since.inputs = [.advertisement ⟨11⟩ ⟨⟨9⟩, 0, 0, .zero⟩,
        .advertisement ⟨7⟩ ⟨⟨5⟩, 0, 0, .zero⟩] ∧
      last.phase = .syncing reached ∧ reached.target = ⟨⟨5⟩, 0, 0, .zero⟩ ∧
      afterFirstRequest.handle Verification.rehearsed (PeerSet.ofList [⟨7⟩]) []
        (.ledgerUpdate ⟨⟨2⟩, 0, 0, .zero⟩) = .ok (further, []) ∧
      further.synchronizer.phase = .syncing next ∧ next.head = ⟨⟨2⟩, 0, 0, .zero⟩ ∧
      next.pending = some ⟨⟨4⟩, ⟨1⟩⟩ ∧
      afterFirstRequest.handle Verification.rehearsed (PeerSet.ofList [⟨7⟩]) []
        (.ledgerUpdate ⟨⟨4⟩, 0, 0, .zero⟩) = .ok (done, []) ∧
      done.synchronizer.phase = .idle ⟨⟨4⟩, 0, 0, .zero⟩ := by
  have run : Run {} .genesis Verification.rehearsed _ afterFirstRequest := Run.start.replay
    [(PeerSet.ofList [⟨4⟩, ⟨7⟩, ⟨9⟩], .localRequest ⟨⟨3⟩, 0, 0, .zero⟩ [⟨4⟩, ⟨7⟩, ⟨9⟩])] [] rfl
  have episode : Episode Verification.rehearsed afterFirstRequest _ _ := Episode.here.replay
    [(PeerSet.ofList [⟨4⟩, ⟨7⟩], .advertisement ⟨7⟩ ⟨⟨5⟩, 0, 0, .zero⟩),
      (PeerSet.ofList [⟨4⟩, ⟨7⟩], .advertisement ⟨11⟩ ⟨⟨9⟩, 0, 0, .zero⟩)] [] (by simp) rfl
    (by decide)
  have short : afterFirstRequest.handle Verification.rehearsed (PeerSet.ofList [⟨7⟩]) []
      (.ledgerUpdate ⟨⟨2⟩, 0, 0, .zero⟩) = .ok (_, []) := rfl
  have past : afterFirstRequest.handle Verification.rehearsed (PeerSet.ofList [⟨7⟩]) []
      (.ledgerUpdate ⟨⟨4⟩, 0, 0, .zero⟩) = .ok (_, []) := rfl
  obtain ⟨-, -, step, episodes⟩ := run.forward_only
  obtain ⟨reached, syncing, aim, -⟩ := episodes _ _ _ rfl episode
  obtain ⟨-, goesOn⟩ := (step _ _ _ _ _ short).2 _ rfl
  obtain ⟨next, on, continues, -⟩ := goesOn (by simp [Pursuit.EndedBy]; decide)
  have continues := continues (by simp)
  obtain ⟨ends, -⟩ := (step _ _ _ _ _ past).2 _ rfl
  refine ⟨_, _, _, _, _, reached, next, run, episode, rfl, syncing, aim, short, on,
    continues.head, ?_, past, ?_⟩
  · exact continues.pending _ rfl ⟨by simp, by simp, nofun⟩
  · exact ends (by simp [Pursuit.EndedBy]; decide)

end Synchronizer

end Catchup
