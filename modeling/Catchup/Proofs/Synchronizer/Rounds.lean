import Catchup.Proofs.Synchronizer.Delays

/-! How limited status checks go round the directory.

A check that may not ask everybody asks the next few peers, and the one after it goes on where that
has stopped. Nothing else moves the place: a check that is not due, an answer or a pursuit leaves it
as it is. -/

set_option autoImplicit false

namespace Catchup.Synchronizer

variable {σ : Type}

/-- The peers that each status check has asked, the first check first. -/
def History.checks : History σ → List (List PeerId)
  | [] => []
  | record :: earlier =>
    match record.reaction.outputs.filterMap Output.asked? with
    | [] => checks earlier
    | asked => checks earlier ++ [asked]

namespace History

variable {record : Record σ} {earlier : History σ}

theorem checks_cons_of_silent (silent : record.reaction.outputs.filterMap Output.asked? = []) :
    checks (record :: earlier) = checks earlier := by
  simp only [checks, silent]

theorem checks_cons_of_asked {asked : List PeerId} (somebody : asked ≠ [])
    (sent : record.reaction.outputs.filterMap Output.asked? = asked) :
    checks (record :: earlier) = checks earlier ++ [asked] := by
  obtain ⟨first, rest, rfl⟩ := List.exists_cons_of_ne_nil somebody
  simp only [checks, sent]

theorem checksStarted_cons (record : Record σ) (earlier : History σ) :
    checksStarted (record :: earlier) =
      record.reaction.outputs.countP Output.opensWindow + checksStarted earlier := by
  rw [checksStarted, outputs, List.flatMap_cons, List.countP_append]
  rfl

end History

/-! ## Steps -/

section
variable {judge : Judge σ} {directory : Directory} {store after : σ} {before : Synchronizer}
  {input : Input} {bare : Reaction} {peers : List PeerId} {limit : Nat}

theorem checkWindow_of_limited (limited : before.settings.checkLimit = some limit)
    (many : limit < directory.peers.length) (few : directory.peers.length < UInt64.size / 2) :
    before.checkWindow directory = .ok (segment directory.peers before.checkOffset limit,
      before.checkOffset % directory.peers.length + limit) := by
  have positive := Nat.zero_lt_of_lt many
  have within := Nat.mod_lt before.checkOffset positive
  have room : before.checkOffset % directory.peers.length + limit < UInt64.size := by
    simp only [UInt64.size] at few ⊢
    omega
  have somebody : directory.peers ≠ [] := List.length_pos_iff.mp positive
  simp only [checkWindow, limited, if_pos many, if_pos room,
    take_rotateLeft somebody many.le, segment_mod]

theorem Pursues.checkOffset {pursuit : Pursuit} (pursues : Pursues directory before pursuit bare) :
    bare.synchronizer.checkOffset = before.checkOffset := by
  cases pursues <;> rfl

/-- A step that asks for nobody's status opens no window and keeps the place. Otherwise it asks the
next few peers, and the place moves on behind them. -/
theorem Transition.asks_in_turn
    (transition : Transition judge directory store before input bare after)
    (limited : before.settings.checkLimit = some limit) (positive : 1 ≤ limit)
    (many : limit < directory.peers.length) (few : directory.peers.length < UInt64.size / 2) :
    (bare.outputs.filterMap Output.asked? = [] ∧ bare.outputs.countP Output.opensWindow = 0 ∧
      bare.synchronizer.checkOffset = before.checkOffset) ∨
    bare.outputs.filterMap Output.asked? =
        segment directory.peers before.checkOffset limit ∧
      bare.outputs.countP Output.opensWindow = 1 ∧
      bare.synchronizer.checkOffset = before.checkOffset % directory.peers.length + limit := by
  cases transition with
  | unasked phase window =>
    have limit : before.settings.checkLimit ≠ some 0 := by
      rw [limited, Ne, Option.some.injEq]
      omega
    have somebody : directory.peers ≠ [] := List.length_pos_iff.mp (Nat.zero_lt_of_lt many)
    exact absurd rfl (asked_of_checkWindow limit somebody window).1
  | checkStarted phase window somebody number =>
    cases (checkWindow_of_limited limited many few).symm.trans window
    refine .inr ⟨?_, ?_, rfl⟩
    · simp [Output.asked?, Function.comp_def]
    · simp [Output.opensWindow, Function.comp_def]
  | resumed resumes pursues =>
    exact .inl ⟨pursues.asks_no_status, pursues.lastCheck.2, pursues.checkOffset⟩
  | ignored | answered | checkClosed | unsolicited | malicious | accepted | adopted | satisfied =>
    exact .inl ⟨rfl, rfl, rfl⟩

end

/-! ## Runs -/

section
variable {settings : Settings} {head : Header} {judge : Judge σ} {history since : History σ}
  {last : Synchronizer} {peers : List PeerId} {limit : Nat}

/-- As long as the directory stays the same, each check goes on where the one before has stopped. -/
theorem Run.checks_in_turn (run : Run settings head judge (since ++ history) last)
    (limited : settings.checkLimit = some limit) (positive : 1 ≤ limit)
    (many : limit < peers.length) (few : peers.length < UInt64.size / 2)
    (unchanged : ∀ record ∈ since, record.directory.peers = peers) :
    since.checks.length = since.checksStarted ∧
      ∃ offset, InTurn peers limit offset since.checks ∧
        last.checkOffset ≡ offset + limit * since.checks.length [MOD peers.length] := by
  induction since generalizing last with
  | nil => exact ⟨rfl, last.checkOffset, trivial, Nat.ModEq.refl _⟩
  | cons record since ih =>
    obtain ⟨same, unchanged⟩ := List.forall_mem_cons.mp unchanged
    cases run with
    | step _ earlier done =>
      obtain ⟨bare, transition, reacted⟩ := transition_of_handle done
      obtain ⟨counted, offset, turn, place⟩ := ih earlier unchanged
      have outputs : record.reaction.outputs = bare.outputs := reacted ▸ rfl
      have reached : record.reaction.synchronizer = bare.synchronizer := reacted ▸ rfl
      subst same
      rw [History.checksStarted_cons, outputs, reached]
      rcases transition.asks_in_turn (earlier.settings_eq ▸ limited) positive many few with
        ⟨silent, unopened, kept⟩ | ⟨asked, opened, moved⟩
      · rw [History.checks_cons_of_silent (outputs ▸ silent), unopened, kept, Nat.zero_add]
        exact ⟨counted, offset, turn, place⟩
      · -- The window begins where the checks so far have led to, up to whole laps.
        rw [segment_congr place] at asked
        have somebody := segment_ne_nil (List.length_pos_iff.mp (Nat.zero_lt_of_lt many)) positive
          (offset + limit * (History.checks since).length)
        rw [History.checks_cons_of_asked somebody (outputs ▸ asked), opened, moved,
          List.length_append, List.length_singleton]
        refine ⟨by omega, offset, turn.concat, ?_⟩
        rw [Nat.mul_succ, ← Nat.add_assoc]
        exact ((Nat.mod_modEq _ _).trans place).add_right limit

/-- A limited check that is due while nothing else is going on does start, as long as the numbers of
checks last. -/
theorem Run.limited_check_starts (run : Run settings head judge history last)
    (limited : settings.checkLimit = some limit) (positive : 1 ≤ limit) {directory : Directory}
    (many : limit < directory.peers.length) (few : directory.peers.length < UInt64.size / 2)
    (idle : last.phase.kind = .idle) (store : σ) :
    (∀ fault, last.handle judge directory store .checkDue = .error fault →
      history.checksStarted + 1 = UInt64.size) ∧
    ∀ reaction after, last.handle judge directory store .checkDue = .ok (reaction, after) →
      reaction.synchronizer.phase.kind = .checking := by
  have limit : settings.checkLimit ≠ some 0 := by
    rw [limited, Ne, Option.some.injEq]
    omega
  have somebody : directory.peers ≠ [] := List.length_pos_iff.mp (Nat.zero_lt_of_lt many)
  obtain ⟨fails, asks⟩ := run.check_asks limit somebody idle store
  refine ⟨fun fault failed => (fails fault failed).resolve_left ?_,
    fun reaction after done => (asks reaction after done).1⟩
  simp only [UInt64.size] at few ⊢
  omega

/-- From any state on, as long as the directory stays the same: each check asks as many peers as it
may, all different. Those that successive checks ask are a segment of the endless repetition of the
directory, so nobody is left out once it is a whole lap, and any two peers are asked equally often,
give or take one. Whenever a check is due while nothing else is going on, one starts, unless the
numbers of checks are used up. -/
theorem Run.checks_go_round (run : Run settings head judge (since ++ history) last)
    (limited : settings.checkLimit = some limit) (positive : 1 ≤ limit)
    (many : limit < peers.length) (few : peers.length < UInt64.size / 2)
    (distinct : peers.Nodup) (unchanged : ∀ record ∈ since, record.directory.peers = peers) :
    since.checks.length = since.checksStarted ∧
    (∀ asked ∈ since.checks, asked.length = limit ∧ asked.Nodup) ∧
    (∀ checks, checks <:+: since.checks →
      (∃ offset, checks.flatten = segment peers offset (limit * checks.length)) ∧
      (peers.length ≤ limit * checks.length → ∀ peer ∈ peers, peer ∈ checks.flatten) ∧
      ∀ peer ∈ peers, ∀ other ∈ peers,
        checks.flatten.count peer ≤ checks.flatten.count other + 1) ∧
    ∀ directory store, directory.peers = peers → last.phase.kind = .idle →
      (∀ fault, last.handle judge directory store .checkDue = .error fault →
        History.checksStarted (since ++ history) + 1 = UInt64.size) ∧
      ∀ reaction after, last.handle judge directory store .checkDue = .ok (reaction, after) →
        reaction.synchronizer.phase.kind = .checking := by
  obtain ⟨counted, offset, turn, -⟩ := run.checks_in_turn limited positive many few unchanged
  have somebody : peers ≠ [] := List.length_pos_iff.mp (Nat.zero_lt_of_lt many)
  refine ⟨counted, fun asked member => ?_, fun checks part => ?_, ?_⟩
  · obtain ⟨later, rfl⟩ := turn.exists_of_mem member
    exact ⟨length_segment somebody later limit, nodup_segment distinct many.le later⟩
  · obtain ⟨later, turn⟩ := turn.exists_of_infix part
    rw [turn.flatten]
    refine ⟨⟨later, rfl⟩, fun enough peer member => mem_segment_of_lap member enough later, ?_⟩
    intro peer member other listed
    -- Either count is the number of full laps or one more.
    have most := (count_segment distinct member later (limit * checks.length)).2
    have least := (count_segment distinct listed later (limit * checks.length)).1
    exact most.trans (Nat.add_le_add_right least 1)
  · rintro directory store rfl idle
    exact run.limited_check_starts limited positive many few idle store

end

def twoAtOnce : Settings := { checkLimit := some 2 }

/-- A node that has heard nothing in the checks it has made. -/
def unheard (lastCheck : UInt64) (checkOffset : Nat) : Synchronizer :=
  { Synchronizer.start twoAtOnce .genesis with lastCheck, checkOffset }

/-- A check that nobody answers; another one that is due meanwhile does not start. -/
def unanswered (directory : Directory) (number : UInt64) : List (Directory × Input) :=
  [(directory, .checkDue), (directory, .checkDue), (directory, .statusWindowClosed number)]

/-- Four peers are connected at first. When one of them has left, the next two checks start behind
the second peer and ask all that are left. -/
theorem checks_go_round_after_departure :
    ∃ (history since : History (List Verdict)) (last : Synchronizer),
      Run twoAtOnce .genesis Verification.rehearsed (since ++ history) last ∧
      (∀ record ∈ since, record.directory.peers = [⟨1⟩, ⟨2⟩, ⟨3⟩]) ∧
      history.checks = [[⟨1⟩, ⟨2⟩]] ∧ since.checks = [[⟨3⟩, ⟨1⟩], [⟨2⟩, ⟨3⟩]] ∧
      (∀ peer ∈ [⟨1⟩, ⟨2⟩, ⟨3⟩], peer ∈ since.checks.flatten) ∧
      since.checks.flatten.count ⟨3⟩ ≤ since.checks.flatten.count ⟨2⟩ + 1 ∧
      ∀ reaction after, last.handle Verification.rehearsed (PeerSet.ofList [⟨1⟩, ⟨2⟩, ⟨3⟩]) []
        .checkDue = .ok (reaction, after) → reaction.synchronizer.phase.kind = .checking := by
  have first : Run twoAtOnce .genesis Verification.rehearsed ([] ++ _) (unheard 1 2) :=
    Run.start.replay (unanswered (PeerSet.ofList [⟨1⟩, ⟨2⟩, ⟨3⟩, ⟨4⟩]) 1) [] rfl
  have run : Run twoAtOnce .genesis Verification.rehearsed _ (unheard 3 3) := first.replay_after
    (unanswered (PeerSet.ofList [⟨1⟩, ⟨2⟩, ⟨3⟩]) 2 ++
      unanswered (PeerSet.ofList [⟨1⟩, ⟨2⟩, ⟨3⟩]) 3) [] rfl
  obtain ⟨-, -, around, starts⟩ :=
    @Run.checks_go_round _ _ _ _ _ _ _ [⟨1⟩, ⟨2⟩, ⟨3⟩] 2 run rfl (by decide) (by decide) (by decide)
      (by decide) (by decide)
  obtain ⟨-, whole, even⟩ := around _ List.infix_rfl
  refine ⟨_, _, _, run, by decide, rfl, rfl, whole (by decide), ?_, ?_⟩
  · exact even ⟨3⟩ (by decide) ⟨2⟩ (by decide)
  · exact (starts _ _ rfl rfl).2

end Catchup.Synchronizer
