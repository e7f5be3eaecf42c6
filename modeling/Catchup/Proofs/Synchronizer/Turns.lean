import Catchup.Proofs.Candidates
import Catchup.Proofs.Synchronizer.Invariant
import Catchup.Proofs.Synchronizer.Pursuit
import Mathlib.Data.List.Nodup
import Mathlib.Data.List.Perm.Basic

/-! Candidates wait their turn.

As long as a pursuit is on, a candidate is dropped only when it has left the directory, and only an
advertisement adds one. The position of a candidate in the queue says how many requests go out
before the next one to it: each of them moves the queue on by one place, and each advertisement may
put one peer in front. -/

set_option autoImplicit false

namespace Catchup

theorem idxOf_filter_le {peer : PeerId} {keep : PeerId → Bool} (kept : keep peer = true)
    (peers : List PeerId) : (peers.filter keep).idxOf peer ≤ peers.idxOf peer := by
  induction peers with
  | nil => exact Nat.le_refl _
  | cons first rest ih =>
    by_cases same : first = peer
    · subst same
      rw [List.filter_cons_of_pos kept, List.idxOf_cons_self]
      exact Nat.zero_le _
    · rw [List.idxOf_cons_ne rest same]
      cases stays : keep first with
      | true =>
        rw [List.filter_cons_of_pos stays, List.idxOf_cons_ne _ same]
        exact Nat.succ_le_succ ih
      | false =>
        rw [List.filter_cons_of_neg (by simp [stays])]
        exact ih.trans (Nat.le_succ _)

/-- The peer that a sync request goes to. -/
def Output.requested? : Output → Option PeerId
  | .sendSyncRequest peer _ => some peer
  | _ => none

namespace Synchronizer

variable {σ : Type}

/-- The peers that sync requests have gone to. -/
def History.requested (history : History σ) : List PeerId :=
  history.outputs.filterMap Output.requested?

/-- The peers to ask, in turn, if a pursuit is on. -/
def candidates (synchronizer : Synchronizer) : List PeerId :=
  synchronizer.phase.pursuit?.elim [] fun pursuit => pursuit.candidates.peers

theorem candidates_of_phase {synchronizer : Synchronizer} {pursuit : Pursuit}
    (phase : synchronizer.phase = .syncing pursuit) :
    synchronizer.candidates = pursuit.candidates.peers := by
  rw [candidates, phase]
  rfl

/-- Has the input made a candidate of the peer that advertises? -/
def inserts (before : Synchronizer) (input : Input) (reached : Synchronizer) : Bool :=
  match input with
  | .advertisement peer _ =>
    !before.candidates.contains peer && reached.candidates.contains peer
  | _ => false

/-- How many peers advertisements have put into the queue. -/
def History.insertions (first : Synchronizer) : History σ → Nat
  | [] => 0
  | record :: earlier => insertions first earlier +
      if inserts (latest first earlier) record.input record.reaction.synchronizer then 1 else 0

/-! ## Steps -/

section
variable {judge : Judge σ} {directory : Directory} {store after : σ} {before : Synchronizer}
  {input : Input} {bare : Reaction} {pursuit resumed next : Pursuit} {peer : PeerId}

/-- The queue with which a pursuit goes on after an input. -/
inductive Requeues (directory : Directory) (pursuit : Pursuit) : Input → Candidates → Prop where
  | kept {input : Input} : Requeues directory pursuit input pursuit.candidates
  | passed {input : Input} {peer : PeerId} {id : RequestId} :
      pursuit.pending = some ⟨peer, id⟩ →
      Requeues directory pursuit input (pursuit.candidates.rotatePast peer).2
  | raised {peer : PeerId} {header : Header} : directory.has peer = true →
      pursuit.target.version < header.version →
      Requeues directory pursuit (.advertisement peer header) (pursuit.candidates.insert peer)

theorem GoesOn.requeues (goesOn : GoesOn directory pursuit input resumed)
    (own : ∀ target peers, input ≠ .localRequest target peers) :
    Requeues directory pursuit input resumed.candidates := by
  cases goesOn with
  | timeout out => exact .passed out
  | ledgerUpdate ahead | overdue late => exact .kept
  | raised known ahead => exact .raised known (Header.isAheadOf_iff_lt.mp ahead)
  | replaced ahead => exact absurd rfl (own _ _)

/-- Going on drops the candidates that have left, and no others. -/
theorem Pursues.queue (pursues : Pursues directory before resumed bare)
    (phase : bare.synchronizer.phase = .syncing next) :
    next.candidates = resumed.candidates ∨
      next.candidates.peers.Perm (available directory resumed) := by
  cases pursues with
  | reached synced => cases phase
  | waiting behind busy => cases phase; exact .inl rfl
  | exhausted behind free gone =>
    cases phase
    exact .inr (gone ▸ List.Perm.refl [])
  | asked behind free found number =>
    cases phase
    exact .inr (found ▸ List.perm_append_singleton _ _)

/-- Where a pursuit is on before and after a step, its queue is left alone or the pursuit has gone
on. -/
theorem Transition.left_or_resumed
    (transition : Transition judge directory store before input bare after)
    (phase : before.phase = .syncing pursuit) (reached : bare.synchronizer.phase = .syncing next) :
    (next.candidates = pursuit.candidates ∧ bare.outputs.countP Output.isRequest = 0) ∨
      ∃ resumed reaction, GoesOn directory pursuit input resumed ∧
        Pursues directory before resumed reaction ∧
        reaction.synchronizer = bare.synchronizer ∧ reaction.outputs = bare.outputs := by
  cases transition.pursuitStep phase with
  | ignored ignores =>
    cases phase.symm.trans reached
    exact .inl ⟨rfl, rfl⟩
  | rejected none_or_ban =>
    cases phase.symm.trans reached
    rcases none_or_ban with rfl | ⟨reason, rfl⟩ <;> exact .inl ⟨rfl, rfl⟩
  | accepted =>
    cases reached
    exact .inl ⟨rfl, rfl⟩
  | resumed goesOn pursues => exact .inr ⟨_, _, goesOn, pursues, rfl, rfl⟩
  | satisfied low => cases reached

/-- A candidate is lost only when it has left the directory, and only an advertisement adds one. -/
theorem Transition.keeps_candidates
    (transition : Transition judge directory store before input bare after)
    (phase : before.phase = .syncing pursuit) (reached : bare.synchronizer.phase = .syncing next)
    (own : ∀ target peers, input ≠ .localRequest target peers) (peer : PeerId) :
    (directory.has peer = true →
      pursuit.candidates.peers.count peer ≤ next.candidates.peers.count peer) ∧
    (pursuit.candidates.peers.count peer < next.candidates.peers.count peer →
      directory.has peer = true ∧ ∃ header, input = .advertisement peer header ∧
        pursuit.target.version < header.version) := by
  rcases transition.left_or_resumed phase reached with
    ⟨same, -⟩ | ⟨resumed, _, goesOn, pursues, leads, -⟩
  · rw [same]
    exact ⟨fun _ => Nat.le_refl _, fun more => absurd more (Nat.lt_irrefl _)⟩
  have kept : directory.has peer = true →
      next.candidates.peers.count peer = resumed.candidates.peers.count peer := by
    intro known
    rcases pursues.queue (leads ▸ reached) with same | same
    · rw [same]
    · rw [same.count_eq, available, List.count_filter known]
  have fewer : next.candidates.peers.count peer ≤ resumed.candidates.peers.count peer := by
    rcases pursues.queue (leads ▸ reached) with same | same
    · rw [same]
    · rw [same.count_eq]
      exact List.filter_sublist.count_le peer
  have requeues := goesOn.requeues own
  generalize resumed.candidates = queue at requeues kept fewer
  cases requeues with
  | kept => exact ⟨fun known => (kept known).ge, fun more => absurd more (Nat.not_lt.mpr fewer)⟩
  | passed out =>
    rw [(pursuit.candidates.perm_rotatePast _).count_eq] at kept fewer
    exact ⟨fun known => (kept known).ge, fun more => absurd more (Nat.not_lt.mpr fewer)⟩
  | @raised sender header known above =>
    refine ⟨fun known => kept known ▸ Candidates.count_le_count_insert .., fun more => ?_⟩
    by_cases same : sender = peer
    · exact same ▸ ⟨known, header, rfl, above⟩
    · rw [Candidates.count_insert_of_ne same] at fewer
      exact absurd more (Nat.not_lt.mpr fewer)

/-! ## Turns -/

/-- A pending request has gone to the last candidate. -/
def AsksLast (pursuit : Pursuit) : Prop :=
  ∀ pending, pursuit.pending = some pending → pursuit.candidates.peers.getLast? = some pending.peer

theorem Requeues.nodup {queue : Candidates} (requeues : Requeues directory pursuit input queue)
    (distinct : pursuit.candidates.peers.Nodup) : queue.peers.Nodup := by
  cases requeues with
  | kept => exact distinct
  | passed out => exact (pursuit.candidates.perm_rotatePast _).nodup_iff.mpr distinct
  | raised known above => exact Candidates.nodup_insert distinct _

theorem Pursues.nodup (pursues : Pursues directory before resumed bare)
    (phase : bare.synchronizer.phase = .syncing next)
    (distinct : resumed.candidates.peers.Nodup) : next.candidates.peers.Nodup := by
  rcases pursues.queue phase with same | same
  · exact same ▸ distinct
  · exact same.nodup_iff.mpr (distinct.filter _)

theorem Transition.nodup (transition : Transition judge directory store before input bare after)
    (phase : before.phase = .syncing pursuit) (reached : bare.synchronizer.phase = .syncing next)
    (own : ∀ target peers, input ≠ .localRequest target peers)
    (distinct : pursuit.candidates.peers.Nodup) : next.candidates.peers.Nodup := by
  rcases transition.left_or_resumed phase reached with
    ⟨same, -⟩ | ⟨resumed, _, goesOn, pursues, leads, -⟩
  · exact same ▸ distinct
  · exact pursues.nodup (leads ▸ reached) ((goesOn.requeues own).nodup distinct)

theorem Pursues.mem (pursues : Pursues directory before resumed bare)
    (phase : bare.synchronizer.phase = .syncing next) (held : peer ∈ resumed.candidates.peers)
    (known : directory.has peer = true) : peer ∈ next.candidates.peers := by
  rcases pursues.queue phase with same | same
  · exact same ▸ held
  · exact same.mem_iff.mpr (List.mem_filter.mpr ⟨held, known⟩)

/-- A request to somebody else moves the candidate forward by one place at least. -/
theorem Pursues.moves_forward (pursues : Pursues directory before resumed bare)
    (phase : bare.synchronizer.phase = .syncing next) (held : peer ∈ resumed.candidates.peers)
    (known : directory.has peer = true)
    (unasked : peer ∉ bare.outputs.filterMap Output.requested?) :
    next.candidates.peers.idxOf peer + bare.outputs.countP Output.isRequest ≤
      resumed.candidates.peers.idxOf peer := by
  have candidate : peer ∈ available directory resumed := List.mem_filter.mpr ⟨held, known⟩
  cases pursues with
  | reached synced => cases phase
  | waiting behind busy =>
    cases phase
    exact Nat.le_refl _
  | exhausted behind free gone =>
    rw [gone] at candidate
    cases candidate
  | @asked first rest nextRequest behind free found number =>
    cases phase
    have different : first ≠ peer := by
      rintro rfl
      exact unasked List.mem_cons_self
    have earlier : (available directory resumed).idxOf peer ≤
        resumed.candidates.peers.idxOf peer := idxOf_filter_le known _
    rw [found] at candidate earlier
    have later : peer ∈ rest := (List.mem_cons.mp candidate).resolve_left different.symm
    rw [List.idxOf_cons_ne rest different] at earlier
    show (rest ++ [first]).idxOf peer + 1 ≤ _
    rw [List.idxOf_append_of_mem later]
    exact earlier

theorem Requeues.idxOf_le {queue : Candidates} (requeues : Requeues directory pursuit input queue)
    (distinct : pursuit.candidates.peers.Nodup) (tracked : AsksLast pursuit)
    (held : peer ∈ pursuit.candidates.peers) :
    peer ∈ queue.peers ∧ (queue.peers.idxOf peer ≤ pursuit.candidates.peers.idxOf peer ∨
      ∃ sender header, input = .advertisement sender header ∧ directory.has sender = true ∧
        sender ∉ pursuit.candidates.peers ∧ sender ∈ queue.peers ∧
        queue.peers.idxOf peer ≤ pursuit.candidates.peers.idxOf peer + 1) := by
  cases requeues with
  | kept => exact ⟨held, .inl (Nat.le_refl _)⟩
  | passed out =>
    -- The peer that was asked last is in front only if it is alone.
    rw [Candidates.rotatePast_of_last distinct (tracked _ out)]
    exact ⟨held, .inl (Nat.le_refl _)⟩
  | @raised sender header known above =>
    have moved := Candidates.idxOf_insert_le held sender
    refine ⟨Candidates.mem_insert.mpr (.inr held), ?_⟩
    by_cases there : sender ∈ pursuit.candidates.peers
    · rw [if_pos there] at moved
      exact .inl moved
    · rw [if_neg there] at moved
      refine .inr ⟨sender, header, rfl, known, there, ?_, moved⟩
      rw [Candidates.peers_insert_of_not_mem there]
      exact List.mem_cons_self

/-- The places before a candidate and the requests that have gone out, together, grow only by the
peers that are inserted. -/
theorem Transition.moves_forward
    (transition : Transition judge directory store before input bare after)
    (phase : before.phase = .syncing pursuit) (reached : bare.synchronizer.phase = .syncing next)
    (own : ∀ target peers, input ≠ .localRequest target peers)
    (distinct : pursuit.candidates.peers.Nodup) (tracked : AsksLast pursuit)
    (held : peer ∈ pursuit.candidates.peers) (known : directory.has peer = true)
    (unasked : peer ∉ bare.outputs.filterMap Output.requested?) :
    peer ∈ next.candidates.peers ∧
      next.candidates.peers.idxOf peer + bare.outputs.countP Output.isRequest ≤
        pursuit.candidates.peers.idxOf peer +
          if inserts before input bare.synchronizer then 1 else 0 := by
  rcases transition.left_or_resumed phase reached with
    ⟨same, silent⟩ | ⟨resumed, reaction, goesOn, pursues, leads, outputs⟩
  · rw [same, silent]
    exact ⟨held, Nat.le_add_right _ _⟩
  obtain ⟨queued, placed⟩ := (goesOn.requeues own).idxOf_le distinct tracked held
  have forward := pursues.moves_forward (leads ▸ reached) queued known (outputs ▸ unasked)
  rw [outputs] at forward
  refine ⟨pursues.mem (leads ▸ reached) queued known, ?_⟩
  rcases placed with ahead | ⟨sender, header, rfl, connected, absent, inserted, behind⟩
  · exact forward.trans (ahead.trans (Nat.le_add_right _ _))
  · have stays := pursues.mem (leads ▸ reached) inserted connected
    have counted : inserts before (.advertisement sender header) bare.synchronizer = true := by
      simp [inserts, candidates_of_phase phase, candidates_of_phase reached, absent, stays]
    rw [if_pos counted]
    exact forward.trans behind

end

/-! ## Episodes -/

section
variable {settings : Settings} {head : Header} {judge : Judge σ} {history since later : History σ}
  {first current last : Synchronizer} {pursuit : Pursuit} {peer : PeerId}

theorem Sound.asksLast {asked : List PeerId} {synchronizer : Synchronizer}
    (sound : Sound asked synchronizer) (phase : synchronizer.phase = .syncing pursuit) :
    AsksLast pursuit := fun pending out => (sound.tracked pursuit phase pending out).last

theorem Episode.nodup {initial : Pursuit} (episode : Episode judge first since last)
    (phase : first.phase = .syncing initial) (distinct : initial.candidates.peers.Nodup) :
    ∃ next, last.phase = .syncing next ∧ next.candidates.peers.Nodup := by
  refine episode.keeps ⟨initial, phase, distinct⟩ ?_
  intro since before record bare _ ih transition same own kind
  obtain ⟨pursuit, here, distinct⟩ := ih
  obtain ⟨next, reached⟩ :=
    Phase.kind_eq_syncing_iff.mp (kind.trans (congrArg Phase.kind phase))
  exact ⟨next, reached, transition.nodup here reached own distinct⟩

/-- As long as a candidate stays connected and is not asked, the places before it and the requests
that have gone out together grow only by the peers that are inserted. -/
theorem Episode.moves_forward (episode : Episode judge current later last)
    (run : Run settings head judge history current) (phase : current.phase = .syncing pursuit)
    (distinct : pursuit.candidates.peers.Nodup) (held : peer ∈ pursuit.candidates.peers)
    (stays : ∀ record ∈ later, record.directory.has peer = true)
    (unasked : peer ∉ later.requested) :
    ∃ next, last.phase = .syncing next ∧ next.candidates.peers.Nodup ∧
      peer ∈ next.candidates.peers ∧
      next.candidates.peers.idxOf peer + later.requestsSent ≤
        pursuit.candidates.peers.idxOf peer + later.insertions current := by
  revert stays unasked
  refine episode.keeps (fun _ _ => ⟨pursuit, phase, distinct, held, Nat.le_refl _⟩) ?_
  intro earlier before record bare episode ih transition same own kind stays unasked
  obtain ⟨connected, stays⟩ := List.forall_mem_cons.mp stays
  have outputs : record.reaction.outputs = bare.outputs := same ▸ rfl
  simp only [History.requested, History.outputs, List.flatMap_cons, outputs, List.filterMap_append,
    List.mem_append, not_or] at unasked
  obtain ⟨middle, here, distinct, queued, bound⟩ := ih stays unasked.2
  obtain ⟨next, reached⟩ :=
    Phase.kind_eq_syncing_iff.mp (kind.trans (congrArg Phase.kind phase))
  obtain ⟨kept, forward⟩ := transition.moves_forward here reached own distinct
    ((episode.run run).sound.asksLast here) queued connected unasked.1
  refine ⟨next, reached, transition.nodup here reached own distinct, kept, ?_⟩
  have sent : History.requestsSent (record :: earlier) =
      bare.outputs.countP Output.isRequest + earlier.requestsSent := by
    rw [History.requestsSent, History.outputs, List.flatMap_cons, List.countP_append, outputs]
    rfl
  rw [sent, History.insertions, episode.latest, same]
  show next.candidates.peers.idxOf peer + _ ≤ _ + (_ + if inserts before record.input
    bare.synchronizer then 1 else 0)
  omega

/-- While a pursuit is on, a step drops only candidates that have left the directory, and adds only
a connected peer that advertises above the target. If the candidates were distinct at first, then
before a connected one is asked again, no more requests go out than there are candidates before it
and peers that are inserted meanwhile. -/
theorem Run.waits_in_turn (run : Run settings head judge history first)
    (episode : Episode judge first since current) (phase : current.phase = .syncing pursuit) :
    (∀ directory store input reaction after next,
      current.handle judge directory store input = .ok (reaction, after) →
      (∀ target peers, input ≠ .localRequest target peers) →
      reaction.synchronizer.phase = .syncing next → ∀ peer,
      (directory.has peer = true →
        pursuit.candidates.peers.count peer ≤ next.candidates.peers.count peer) ∧
      (pursuit.candidates.peers.count peer < next.candidates.peers.count peer →
        directory.has peer = true ∧ ∃ header, input = .advertisement peer header ∧
          pursuit.target.version < header.version)) ∧
    ∀ initial, first.phase = .syncing initial → initial.candidates.peers.Nodup →
      ∀ later last peer, Episode judge current later last → peer ∈ pursuit.candidates.peers →
      (∀ record ∈ later, record.directory.has peer = true) →
      peer ∉ later.requested →
      peer ∈ last.candidates ∧ later.requestsSent ≤
        pursuit.candidates.peers.idxOf peer + later.insertions current := by
  constructor
  · intro directory store input reaction after next done own reached peer
    obtain ⟨bare, transition, rfl⟩ := transition_of_handle done
    exact transition.keeps_candidates phase reached own peer
  · intro initial start distinct later last peer following held stays unasked
    obtain ⟨same, here, distinct⟩ := episode.nodup start distinct
    cases phase.symm.trans here
    obtain ⟨next, reached, -, kept, bound⟩ :=
      following.moves_forward (episode.run run) phase distinct held stays unasked
    rw [candidates_of_phase reached]
    exact ⟨kept, (Nat.le_add_left _ _).trans bound⟩

end

/-- Peer 4 has been asked, and peers 7 and 9 come next. -/
def afterFirstRequest : Synchronizer :=
  { Synchronizer.start {} .genesis with
    phase := .syncing ⟨.genesis, ⟨⟨3⟩, 0, 0, .zero⟩, ⟨[⟨7⟩, ⟨9⟩, ⟨4⟩]⟩, some ⟨⟨4⟩, ⟨1⟩⟩⟩
    nextRequest := ⟨2⟩ }

/-- Two requests time out, and peer 11 comes in meanwhile: three requests go out before the next one
to peer 4. -/
theorem waits_in_turn_behind_advertiser :
    ∃ (history since : History (List Verdict)) (last : Synchronizer),
      Run {} .genesis Verification.rehearsed history afterFirstRequest ∧
      Episode Verification.rehearsed afterFirstRequest since last ∧
      since.inputs = [.requestTimedOut ⟨11⟩ ⟨3⟩, .requestTimedOut ⟨7⟩ ⟨2⟩,
        .advertisement ⟨11⟩ ⟨⟨5⟩, 0, 0, .zero⟩, .requestTimedOut ⟨4⟩ ⟨1⟩] ∧
      since.requestsSent = 3 ∧ since.insertions afterFirstRequest = 1 ∧
      ⟨4⟩ ∈ last.candidates ∧
      since.requestsSent ≤ [(⟨7⟩ : PeerId), ⟨9⟩, ⟨4⟩].idxOf ⟨4⟩ +
        since.insertions afterFirstRequest := by
  have run : Run {} .genesis Verification.rehearsed _ afterFirstRequest := Run.start.replay
    [(PeerSet.ofList [⟨4⟩, ⟨7⟩, ⟨9⟩], .localRequest ⟨⟨3⟩, 0, 0, .zero⟩ [⟨4⟩, ⟨7⟩, ⟨9⟩])] [] rfl
  let everyone : Directory := PeerSet.ofList [⟨4⟩, ⟨7⟩, ⟨9⟩, ⟨11⟩]
  have episode : Episode Verification.rehearsed afterFirstRequest _ _ := Episode.here.replay
    [(everyone, .requestTimedOut ⟨4⟩ ⟨1⟩), (everyone, .advertisement ⟨11⟩ ⟨⟨5⟩, 0, 0, .zero⟩),
      (everyone, .requestTimedOut ⟨7⟩ ⟨2⟩), (everyone, .requestTimedOut ⟨11⟩ ⟨3⟩)] []
    (by simp) rfl (by decide)
  obtain ⟨-, bounded⟩ := run.waits_in_turn Episode.here rfl
  obtain ⟨queued, bound⟩ := bounded _ rfl (by decide) _ _ ⟨4⟩ episode (by decide) (by decide)
    (by decide)
  exact ⟨_, _, _, run, episode, rfl, rfl, rfl, queued, bound⟩

end Synchronizer

end Catchup
