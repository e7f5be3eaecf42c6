import Catchup.Proofs.Synchronizer.Invariant
import Catchup.Proofs.Synchronizer.PeerControl

/-! Inputs that come too late.

Timers are never taken back, and answers may be repeated. What keeps a stale input from doing harm
is the token that it carries: it is compared with what the node waits for at that moment, and no
token is given out twice. A stale input leaves everything as it is, so a run is the same without its
stale inputs. -/

set_option autoImplicit false

namespace Catchup.Synchronizer

variable {σ : Type}

/-- Is nobody waiting for this input, or not any more? -/
def isStale (synchronizer : Synchronizer) : Input → Bool
  | .requestTimedOut peer id => synchronizer.phase.pending? ≠ some ⟨peer, id⟩
  | .statusWindowClosed number =>
    synchronizer.phase.check?.all fun check => check.number ≠ number
  | .commitOverdue expected =>
    synchronizer.phase.pursuit?.all fun pursuit => expected < pursuit.head.version
  | .statusResponse peer _ => synchronizer.phase.check?.all fun check => !check.isWaitingFor peer
  | .syncResponse _ _ => !synchronizer.isSyncing
  | .checkDue | .ledgerUpdate _ | .advertisement _ _ | .localRequest _ _ => false

namespace History

/-- The steps whose input was not stale when it came in. -/
def effective (first : Synchronizer) : History σ → History σ
  | [] => []
  | record :: earlier =>
    if (latest first earlier).isStale record.input then effective first earlier
    else record :: effective first earlier

end History

/-! ## Steps -/

section
variable {judge : Judge σ} {directory : Directory} {store after : σ} {before : Synchronizer}
  {input : Input} {bare : Reaction}

theorem Closes.isStale_eq_false {check : StatusCheck} (closes : Closes before input check) :
    before.isStale input = false := by
  cases closes with
  | lastAnswer phase waiting complete => simp [isStale, phase, Phase.check?, waiting]
  | window phase => simp [isStale, phase, Phase.check?]

theorem Resumes.isStale_eq_false {pursuit : Pursuit} {metrics : List Metric}
    (resumes : Resumes directory before input pursuit metrics) : before.isStale input = false := by
  cases resumes with
  | check closes finds => exact closes.isStale_eq_false
  | timeout phase out => simp [isStale, phase, Phase.pending?, Phase.pursuit?, out]
  | overdue phase late => simp [isStale, phase, Phase.pursuit?, late]
  | ledgerUpdate | advertised | raised | requested => rfl

theorem Overflows.isStale_eq_false {fault : Fault}
    (overflows : Overflows directory before input fault) : before.isStale input = false := by
  cases overflows with
  | offset | check => rfl
  | request resumes asks full => exact resumes.isStale_eq_false

theorem Transition.of_isStale
    (transition : Transition judge directory store before input bare after)
    (stale : before.isStale input = true) : bare = before.quietly ∧ after = store := by
  cases transition with
  | ignored ignores => exact ⟨rfl, rfl⟩
  | answered phase waiting incomplete => simp [isStale, phase, Phase.check?, waiting] at stale
  | checkClosed closes nothing =>
    rw [closes.isStale_eq_false] at stale
    cases stale
  | resumed resumes pursues =>
    rw [resumes.isStale_eq_false] at stale
    cases stale
  | unsolicited phase judged | malicious phase judged | accepted phase judged =>
    simp [isStale, isSyncing, phase, Phase.pursuit?] at stale
  | unasked | checkStarted | adopted | satisfied => cases stale

theorem handle_of_isStale (judge : Judge σ) (directory : Directory) (store : σ)
    (stale : before.isStale input = true) :
    before.handle judge directory store input = .ok (before.quietly.withVersions, store) := by
  rcases handle_cases judge directory store before input with
    ⟨bare, after, transition, step⟩ | ⟨fault, overflows, -⟩
  · obtain ⟨rfl, rfl⟩ := transition.of_isStale stale
    exact step
  · rw [overflows.isStale_eq_false] at stale
    cases stale

/-! ## Tokens -/

/-- The token has been given out, and nobody waits for it. -/
def HasSpent (synchronizer : Synchronizer) : Timeout → Prop
  | .request _ id => id.number.toNat < synchronizer.nextRequest.number.toNat ∧
    ∀ pending, synchronizer.phase.pending? = some pending → pending.id ≠ id
  | .statusWindow number => number.toNat ≤ synchronizer.lastCheck.toNat ∧
    ∀ check, synchronizer.phase = .checking check → check.number ≠ number
  | .commit _ => False

theorem HasSpent.isStale {timeout : Timeout} (spent : before.HasSpent timeout) :
    before.isStale timeout.input = true := by
  cases timeout with
  | request peer id =>
    refine decide_eq_true fun held => ?_
    exact spent.2 _ held rfl
  | statusWindow number =>
    cases phase : before.phase with
    | checking check =>
      simpa [Synchronizer.isStale, Timeout.input, phase, Phase.check?] using spent.2 check phase
    | idle | syncing => simp [Synchronizer.isStale, Timeout.input, phase, Phase.check?]
  | commit version => exact spent.elim

theorem Transition.sent_id (transition : Transition judge directory store before input bare after)
    {peer : PeerId} {request : SyncRequest} (sent : .sendSyncRequest peer request ∈ bare.outputs) :
    request.id = before.nextRequest := by
  obtain ⟨pursuit, _, _, _, -, -, -, -, rfl, -⟩ := transition.sends_request sent
  rfl

/-- A check that is on after a step is new, or has gone on without its window closing. -/
theorem Transition.new_or_kept
    (transition : Transition judge directory store before input bare after) {check : StatusCheck}
    (phase : bare.synchronizer.phase = .checking check) :
    check.number.toNat = before.lastCheck.toNat + 1 ∨
      ∃ earlier, before.phase = .checking earlier ∧ check.number = earlier.number ∧
        input ≠ .statusWindowClosed check.number := by
  cases transition with
  | ignored ignores =>
    refine .inr ⟨check, phase, rfl, ?_⟩
    rintro rfl
    cases ignores with
    | statusWindowClosed other => exact other check phase rfl
  | checkStarted idle window somebody number =>
    cases phase
    exact .inl (increment_eq_ok_iff.mp number)
  | answered checking waiting incomplete =>
    cases phase
    refine .inr ⟨_, checking, ?_, nofun⟩
    rw [StatusCheck.record_of_waiting waiting]
  | resumed resumes pursues => cases pursues <;> cases phase
  | unsolicited syncing judged | malicious syncing judged => cases syncing.symm.trans phase
  | @adopted header other ahead =>
    have kept : before.phase.withHead header = .checking check := phase
    cases checking : before.phase with
    | checking earlier =>
      rw [checking] at kept
      cases kept
      exact .inr ⟨earlier, rfl, rfl, nofun⟩
    | idle | syncing => rw [checking] at kept; cases kept
  | unasked idle window => cases idle.symm.trans phase
  | checkClosed | accepted | satisfied => cases phase

theorem Transition.keeps_spent
    (transition : Transition judge directory store before input bare after) {timeout : Timeout}
    (spent : before.HasSpent timeout) : bare.synchronizer.HasSpent timeout := by
  cases timeout with
  | request peer id =>
    obtain ⟨given, free⟩ := spent
    have counted := transition.nextRequest
    refine ⟨by omega, fun pending held => ?_⟩
    rcases transition.sent_or_spared held with ⟨header, sent⟩ | ⟨earlier, -⟩
    · -- The request that went out just now has a number that is still free.
      rintro rfl
      have fresh : pending.id = before.nextRequest := transition.sent_id sent
      rw [fresh] at given
      exact Nat.lt_irrefl _ given
    · exact free pending earlier
  | statusWindow number =>
    obtain ⟨given, free⟩ := spent
    have counted := transition.lastCheck
    refine ⟨by omega, fun check phase => ?_⟩
    rcases transition.new_or_kept phase with fresh | ⟨earlier, checking, same, -⟩
    · rintro rfl
      omega
    · rw [same]
      exact free earlier checking
  | commit version => exact spent.elim

/-- A timeout that is not stale uses up its token. -/
theorem Transition.spends {asked : List PeerId} {timeout : Timeout} (sound : Sound asked before)
    (transition : Transition judge directory store before timeout.input bare after)
    (live : before.isStale timeout.input = false) (token : ∀ version, timeout ≠ .commit version) :
    bare.synchronizer.HasSpent timeout := by
  cases timeout with
  | request peer id =>
    have held : before.phase.pending? = some ⟨peer, id⟩ := by
      simpa [isStale, Timeout.input] using live
    obtain ⟨pursuit, phase, out⟩ := Phase.pending?_eq_some_iff.mp held
    have given : id.number.toNat < before.nextRequest.number.toNat :=
      (sound.tracked pursuit phase _ out).numbered
    have counted := transition.nextRequest
    refine ⟨by omega, fun pending later => ?_⟩
    rcases transition.sent_or_spared later with ⟨header, sent⟩ | ⟨earlier, spares⟩
    · rintro rfl
      have fresh : pending.id = before.nextRequest := transition.sent_id sent
      rw [fresh] at given
      exact Nat.lt_irrefl _ given
    · -- The same request cannot be out still, since it has just timed out.
      cases held.symm.trans earlier
      exact absurd rfl spares.timeout
  | statusWindow number =>
    obtain ⟨check, phase, same⟩ : ∃ check, before.phase = .checking check ∧
        check.number = number := by
      cases phase : before.phase with
      | checking check => exact ⟨check, rfl, by simpa [isStale, Timeout.input, phase, Phase.check?]
          using live⟩
      | idle | syncing => simp [isStale, Timeout.input, phase, Phase.check?] at live
    have current := (sound.awaiting check phase).number
    have counted := transition.lastCheck
    have given : number.toNat = before.lastCheck.toNat := by rw [← same, current]
    refine ⟨by omega, fun later checking => ?_⟩
    rcases transition.new_or_kept checking with fresh | ⟨earlier, -, -, other⟩
    · rintro rfl
      omega
    · rintro rfl
      exact other rfl
  | commit version => exact absurd rfl (token version)

end

/-! ## Runs -/

section
variable {settings : Settings} {head : Header} {judge : Judge σ} {history : History σ}
  {synchronizer : Synchronizer}

/-- Each token has been used up once at most, and is stale from then on. -/
theorem Run.spent (run : Run settings head judge history synchronizer) {timeout : Timeout}
    (token : ∀ version, timeout ≠ .commit version) :
    (history.effective (.start settings head)).inputs.count timeout.input ≤ 1 ∧
      (timeout.input ∈ (history.effective (.start settings head)).inputs →
        synchronizer.HasSpent timeout) := by
  refine run.keeps ⟨Nat.zero_le 1, nofun⟩ ?_
  intro history before record bare earlier ih transition same
  rw [History.effective, earlier.latest]
  by_cases stale : before.isStale record.input = true
  · rw [if_pos stale]
    exact ⟨ih.1, fun member => transition.keeps_spent (ih.2 member)⟩
  rw [if_neg stale]
  have live : before.isStale record.input = false := Bool.eq_false_iff.mpr stale
  by_cases now : record.input = timeout.input
  · -- Had it been used up before, it would be stale by now.
    have fresh : timeout.input ∉ (history.effective (.start settings head)).inputs := by
      intro member
      exact stale (now ▸ (ih.2 member).isStale)
    refine ⟨?_, fun _ => (now ▸ transition).spends earlier.sound (now ▸ live) token⟩
    rw [History.inputs, List.map_cons, now, List.count_cons_self]
    exact Nat.succ_le_of_lt (Nat.lt_succ_of_le (List.count_eq_zero.mpr fresh).le)
  · refine ⟨?_, fun member => transition.keeps_spent (ih.2 ?_)⟩
    · rw [History.inputs, List.map_cons, List.count_cons_of_ne now]
      exact ih.1
    · rcases List.mem_cons.mp member with other | member
      · exact absurd other.symm now
      · exact member

theorem Run.effective (run : Run settings head judge history synchronizer) :
    Run settings head judge (history.effective (.start settings head)) synchronizer ∧
      (history.effective (.start settings head)).outputs = history.outputs := by
  induction run with
  | start => exact ⟨.start, rfl⟩
  | @step history before record earlier done ih =>
    obtain ⟨kept, outputs⟩ := ih
    rw [History.effective, earlier.latest]
    split
    next stale =>
      -- The step has led back to where it started, so it may be left out.
      rw [handle_of_isStale judge record.directory record.store stale] at done
      obtain ⟨quiet, -⟩ := Prod.mk.inj (Except.ok.inj done)
      rw [← quiet]
      refine ⟨kept, outputs.trans ?_⟩
      rw [History.outputs, History.outputs, List.flatMap_cons, ← quiet]
      rfl
    next live =>
      refine ⟨kept.step record done, ?_⟩
      simp only [History.outputs, List.flatMap_cons] at outputs ⊢
      rw [outputs]

/-- A stale input has no output, asks no judge and leaves the synchronizer as it was. A token of a
request or a status check takes effect once at most. So the run without its stale inputs has the
same outputs and comes to the same end. -/
theorem Run.stale_inert (run : Run settings head judge history synchronizer) :
    (∀ input, synchronizer.isStale input = true →
      ∀ (τ : Type) (other : Judge τ) (directory : Directory) (store : τ),
        synchronizer.handle other directory store input =
          .ok (synchronizer.quietly.withVersions, store)) ∧
    (∀ timeout : Timeout, (∀ version, timeout ≠ .commit version) →
      (history.effective (.start settings head)).inputs.count timeout.input ≤ 1) ∧
    Run settings head judge (history.effective (.start settings head)) synchronizer ∧
    (history.effective (.start settings head)).outputs = history.outputs := by
  refine ⟨fun input stale τ other directory store => ?_, fun timeout token => ?_, run.effective⟩
  · exact handle_of_isStale other directory store stale
  · exact (run.spent token).1

end

/-- Peer 4 is asked first. Its timeout comes twice, and the second time nothing happens. -/
theorem stale_inert_after_timeout :
    ∃ (history : History (List Verdict)) (synchronizer : Synchronizer),
      Run {} .genesis Verification.rehearsed history synchronizer ∧
      history.inputs = [.requestTimedOut ⟨4⟩ ⟨1⟩, .requestTimedOut ⟨4⟩ ⟨1⟩,
        .localRequest ⟨⟨3⟩, 0, 0, .zero⟩ [⟨4⟩, ⟨7⟩]] ∧
      synchronizer.phase.pending? = some ⟨⟨7⟩, ⟨2⟩⟩ ∧
      (history.effective (.start {} .genesis)).inputs = [.requestTimedOut ⟨4⟩ ⟨1⟩,
        .localRequest ⟨⟨3⟩, 0, 0, .zero⟩ [⟨4⟩, ⟨7⟩]] ∧
      (history.effective (.start {} .genesis)).inputs.count
        (Timeout.input (.request ⟨4⟩ ⟨1⟩)) ≤ 1 ∧
      Run {} .genesis Verification.rehearsed (history.effective (.start {} .genesis))
        synchronizer ∧
      (history.effective (.start {} .genesis)).outputs = history.outputs ∧
      synchronizer.handle Verification.rehearsed (PeerSet.ofList [⟨7⟩]) []
        (.requestTimedOut ⟨4⟩ ⟨1⟩) = .ok (synchronizer.quietly.withVersions, []) := by
  have run : Run {} .genesis Verification.rehearsed _ _ := Run.start.replay
    [(PeerSet.ofList [⟨4⟩, ⟨7⟩], .localRequest ⟨⟨3⟩, 0, 0, .zero⟩ [⟨4⟩, ⟨7⟩]),
      (PeerSet.ofList [⟨4⟩, ⟨7⟩], .requestTimedOut ⟨4⟩ ⟨1⟩),
      (PeerSet.ofList [⟨4⟩, ⟨7⟩], .requestTimedOut ⟨4⟩ ⟨1⟩)] [] rfl
  obtain ⟨inert, once, kept, outputs⟩ := run.stale_inert
  refine ⟨_, _, run, rfl, rfl, rfl, once _ nofun, kept, outputs, ?_⟩
  exact inert _ rfl _ Verification.rehearsed _ []

end Catchup.Synchronizer
