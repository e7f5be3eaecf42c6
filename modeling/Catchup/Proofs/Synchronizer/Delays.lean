import Catchup.Proofs.Rotation
import Catchup.Proofs.Settings
import Catchup.Proofs.Synchronizer.Requests

/-! What accepted settings spare a synchronizer.

None of its timers expires at once, and a status check that is due while nothing else is going on
asks somebody, if there is anybody. Bans last as long as the settings say, and that may be no time
at all: a zero there is accepted. -/

set_option autoImplicit false

namespace Catchup

/-- How long a timer runs. -/
def Settings.wait (settings : Settings) : Timeout → Nat
  | .statusWindow _ => settings.statusWindow
  | .request .. => settings.requestTimeout
  | .commit _ => settings.commitTimeout

theorem Settings.Usable.wait_pos {settings : Settings} (usable : settings.Usable)
    (timeout : Timeout) : 0 < settings.wait timeout := by
  cases timeout with
  | statusWindow check => exact usable.statusWindow
  | request peer id => exact usable.requestTimeout
  | commit version => exact usable.commitTimeout

namespace Synchronizer

variable {σ : Type}

/-! ## Steps -/

section
variable {judge : Judge σ} {directory : Directory} {store after : σ} {before : Synchronizer}
  {input : Input} {bare : Reaction}

theorem Transition.scheduled_for
    (transition : Transition judge directory store before input bare after) {timeout : Timeout}
    {delay : Nat} (scheduled : .schedule timeout delay ∈ bare.outputs) :
    delay = before.settings.wait timeout := by
  cases transition with
  | checkStarted phase window somebody number =>
    obtain ⟨rfl, rfl⟩ : timeout = .statusWindow _ ∧ delay = before.settings.statusWindow := by
      simpa using scheduled
    rfl
  | resumed resumes pursues =>
    cases pursues with
    | reached | waiting | exhausted => cases scheduled
    | asked =>
      obtain ⟨rfl, rfl⟩ : timeout = .request _ _ ∧ delay = before.settings.requestTimeout := by
        simpa [asking] using scheduled
      rfl
  | accepted phase judged =>
    obtain ⟨rfl, rfl⟩ : timeout = .commit _ ∧ delay = before.settings.commitTimeout := by
      simpa using scheduled
    rfl
  | malicious phase judged => cases List.mem_singleton.mp scheduled
  | ignored | unasked | answered | checkClosed | unsolicited | adopted | satisfied =>
    cases scheduled

theorem Transition.banned_for
    (transition : Transition judge directory store before input bare after) {peer : PeerId}
    {reason : Misconduct} {duration : Nat} (banned : .ban peer reason duration ∈ bare.outputs) :
    duration = before.settings.banDuration := by
  cases transition with
  | malicious phase judged =>
    cases List.mem_singleton.mp banned
    rfl
  | checkStarted phase window somebody number => simp at banned
  | resumed resumes pursues =>
    cases List.filterMap_eq_nil_iff.mp pursues.controls_no_one _ banned
  | accepted phase judged => simp at banned
  | ignored | unasked | answered | checkClosed | unsolicited | adopted | satisfied => cases banned

/-- A limit of one peer or more leaves somebody to ask, and only connected peers are asked. -/
theorem asked_of_checkWindow {asked : List PeerId} {checkOffset : Nat}
    (limit : before.settings.checkLimit ≠ some 0) (somebody : directory.peers ≠ [])
    (window : before.checkWindow directory = .ok (asked, checkOffset)) :
    asked ≠ [] ∧ asked ⊆ directory.peers := by
  unfold checkWindow at window
  split at window
  next most limited =>
    dsimp only at window
    split at window
    next many =>
      split at window
      next =>
        cases window
        have positive : 1 ≤ most := Nat.one_le_iff_ne_zero.mpr fun zero => limit (zero ▸ limited)
        constructor
        · rw [take_rotateLeft somebody many.le]
          exact segment_ne_nil somebody positive _
        · intro peer member
          have rotated := List.mem_of_mem_take member
          rw [rotateLeft_eq_segment] at rotated
          exact (perm_segment_lap _ _).mem_iff.mp rotated
      next => cases window
    next => cases window; exact ⟨somebody, List.Subset.refl _⟩
  next => cases window; exact ⟨somebody, List.Subset.refl _⟩

end

/-! ## Runs -/

section
variable {settings : Settings} {head : Header} {judge : Judge σ} {history : History σ}
  {last : Synchronizer}

/-- What every step sees to for its outputs holds of all outputs of a run. -/
theorem Run.forall_mem_outputs {holds : Output → Prop}
    (run : Run settings head judge history last)
    (step : ∀ (before : Synchronizer) (record : Record σ) (bare : Reaction),
      before.settings = settings →
      Transition judge record.directory record.store before record.input bare record.after →
      ∀ output ∈ bare.outputs, holds output) : ∀ output ∈ history.outputs, holds output := by
  refine run.keeps nofun fun history before record bare earlier ih transition same output given =>
    ?_
  have outputs : record.reaction.outputs = bare.outputs := same ▸ rfl
  rcases List.mem_append.mp given with here | older
  · exact step before record bare earlier.settings_eq transition output (outputs ▸ here)
  · exact ih output older

theorem Run.scheduled_for (run : Run settings head judge history last) {timeout : Timeout}
    {delay : Nat} (scheduled : .schedule timeout delay ∈ history.outputs) :
    delay = settings.wait timeout := by
  have every : ∀ output ∈ history.outputs, ∀ timeout delay, output = .schedule timeout delay →
      delay = settings.wait timeout := by
    refine run.forall_mem_outputs fun before record bare same transition output given => ?_
    rintro timeout delay rfl
    exact same ▸ transition.scheduled_for given
  exact every _ scheduled timeout delay rfl

theorem Run.banned_for (run : Run settings head judge history last) {peer : PeerId}
    {reason : Misconduct} {duration : Nat} (banned : .ban peer reason duration ∈ history.outputs) :
    duration = settings.banDuration := by
  have every : ∀ output ∈ history.outputs, ∀ peer reason duration,
      output = .ban peer reason duration → duration = settings.banDuration := by
    refine run.forall_mem_outputs fun before record bare same transition output given => ?_
    rintro peer reason duration rfl
    exact same ▸ transition.banned_for given
  exact every _ banned peer reason duration rfl

/-- A check that is due while nothing else is going on asks somebody, unless the numbers of checks
are used up, or a place in the directory no longer fits into its word. -/
theorem Run.check_asks (run : Run settings head judge history last)
    (limit : settings.checkLimit ≠ some 0) {directory : Directory}
    (somebody : directory.peers ≠ []) (idle : last.phase.kind = .idle) (store : σ) :
    (∀ fault, last.handle judge directory store .checkDue = .error fault →
      UInt64.size < 2 * directory.peers.length ∨ history.checksStarted + 1 = UInt64.size) ∧
    ∀ reaction after, last.handle judge directory store .checkDue = .ok (reaction, after) →
      reaction.synchronizer.phase.kind = .checking ∧
      ∃ peer ∈ directory.peers, .sendStatusRequest peer ∈ reaction.outputs := by
  rw [← run.settings_eq] at limit
  have numbered := run.lastCheck
  refine ⟨fun fault failed => ?_, fun reaction after done => ?_⟩
  · rcases handle_cases judge directory store last .checkDue with
      ⟨bare, after, -, done⟩ | ⟨cause, overflows, -⟩
    · cases done.symm.trans failed
    · cases overflows with
      | offset phase window => exact .inl (size_lt_of_checkWindow window).2
      | check phase window somebody full =>
        have largest := (increment_eq_error_iff.mp full).2
        exact .inr (numbered ▸ largest)
      | request resumes asks full =>
        cases resumes with
        | check closes finds => cases closes
  · obtain ⟨bare, transition, rfl⟩ := transition_of_handle done
    cases transition with
    | ignored ignores =>
      cases ignores with
      | checkDue busy => exact absurd idle busy
    | unasked phase window => exact absurd rfl (asked_of_checkWindow limit somebody window).1
    | checkStarted phase window asked number =>
      obtain ⟨peer, member⟩ := List.exists_mem_of_ne_nil _ asked
      refine ⟨rfl, peer, (asked_of_checkWindow limit somebody window).2 member, ?_⟩
      exact List.mem_append_left _ (List.mem_map_of_mem member)
    | checkClosed closes nothing => cases closes
    | resumed resumes pursues =>
      cases resumes with
      | check closes finds => cases closes

end

/-- Settings are refused exactly for a limit of no peers, a rate that is not a positive number, or a
delay of zero, and the error names such a flaw. With those that are accepted, no timer of any run
expires at once, and a check that is due while nothing else is going on asks somebody if there is
anybody; it can only fail for want of a next number. But a ban lasts as long as the draft says, and
that need not be any time. -/
theorem delays_of_accepted (draft : Settings) :
    ((∃ flaw, draft.validate = .error flaw) ↔
      draft.checkLimit = some 0 ∨
      ¬ (draft.updateRate.isFinite = true ∧ 0 < draft.updateRate) ∨
      draft.checkInterval = 0 ∨ draft.statusWindow = 0 ∨ draft.requestTimeout = 0 ∨
      draft.commitTimeout = 0) ∧
    (∀ flaw, draft.validate = .error flaw → draft.Flawed flaw) ∧
    ∀ settings, draft.validate = .ok settings →
      ∀ (σ : Type) (head : Header) (judge : Judge σ) (history : History σ) (last : Synchronizer),
      Run settings head judge history last →
      (∀ timeout delay, .schedule timeout delay ∈ history.outputs → 0 < delay) ∧
      (∀ peer reason duration, .ban peer reason duration ∈ history.outputs →
        duration = draft.banDuration) ∧
      ∀ (directory : Directory) (store : σ), directory.peers ≠ [] → last.phase.kind = .idle →
        (∀ fault, last.handle judge directory store .checkDue = .error fault →
          UInt64.size < 2 * directory.peers.length ∨ history.checksStarted + 1 = UInt64.size) ∧
        ∀ reaction after, last.handle judge directory store .checkDue = .ok (reaction, after) →
          ∃ peer ∈ directory.peers, .sendStatusRequest peer ∈ reaction.outputs := by
  refine ⟨Settings.refused_iff, fun flaw => Settings.flawed_of_validate, ?_⟩
  intro settings accepted σ head judge history last run
  have usable := Settings.usable_of_validate accepted
  obtain ⟨flawless, rfl⟩ := Settings.of_validate accepted
  refine ⟨fun timeout delay scheduled => ?_, fun peer reason duration => run.banned_for,
    fun directory store somebody idle => ?_⟩
  · exact run.scheduled_for scheduled ▸ usable.wait_pos timeout
  · have limit : settings.checkLimit ≠ some 0 := fun zero => flawless _ (.limit zero)
    obtain ⟨fails, asks⟩ := run.check_asks limit somebody idle store
    exact ⟨fails, fun reaction after done => (asks reaction after done).2⟩

/-- A draft of short checks and of bans that last no time. -/
def laxDraft : Settings := { checkLimit := some 1, banDuration := 0 }

/-- Somebody asks for a header of version 3 and names two peers, the first one answers with
nothing, and the request is then called off. -/
def calledOff : List (Directory × Input) :=
  [(PeerSet.ofList [⟨4⟩, ⟨7⟩], .localRequest ⟨⟨3⟩, 0, 0, .zero⟩ [⟨4⟩, ⟨7⟩]),
    (PeerSet.ofList [⟨4⟩, ⟨7⟩], .syncResponse ⟨4⟩ ⟨.genesis, [], .genesis⟩),
    (PeerSet.ofList [⟨4⟩, ⟨7⟩], .localRequest .genesis [])]

/-- The timer of the request runs for five seconds, and the next check asks one of the two peers,
though the ban has lasted no time. -/
theorem delays_of_accepted_when_called_off :
    ∃ (history : History (List Verdict)) (last : Synchronizer) (reaction : Reaction),
      laxDraft.validate = .ok laxDraft ∧
      Run laxDraft .genesis Verification.rehearsed history last ∧
      .schedule (.request ⟨4⟩ ⟨1⟩) 5_000_000_000 ∈ history.outputs ∧ 0 < 5_000_000_000 ∧
      .ban ⟨4⟩ .emptyResponse 0 ∈ history.outputs ∧ 0 = laxDraft.banDuration ∧
      last.phase.kind = .idle ∧
      last.handle Verification.rehearsed (PeerSet.ofList [⟨4⟩, ⟨7⟩]) [] .checkDue =
        .ok (reaction, []) ∧
      ∃ peer, .sendStatusRequest peer ∈ reaction.outputs := by
  have accepted : laxDraft.validate = .ok laxDraft := rfl
  have run : Run laxDraft .genesis Verification.rehearsed _ _ :=
    Run.start.replay calledOff [.malicious .emptyResponse] rfl
  obtain ⟨-, -, spared⟩ := delays_of_accepted laxDraft
  obtain ⟨scheduled, banned, checks⟩ := spared laxDraft accepted _ _ _ _ _ run
  obtain ⟨-, asks⟩ := checks (PeerSet.ofList [⟨4⟩, ⟨7⟩]) [] (List.cons_ne_nil _ _) rfl
  obtain ⟨peer, -, asked⟩ := asks _ _ rfl
  exact ⟨_, _, _, accepted, run, by decide, scheduled (.request ⟨4⟩ ⟨1⟩) 5_000_000_000 (by decide),
    by decide, banned ⟨4⟩ .emptyResponse 0 (by decide), rfl, rfl, peer, asked⟩

/-- The draft is accepted, and the ban of the peer that misbehaves is over at once. -/
theorem banned_for_no_time :
    ∃ (draft settings : Settings) (history : History (List Verdict)) (last : Synchronizer),
      draft.validate = .ok settings ∧
      Run settings .genesis Verification.rehearsed history last ∧
      ∃ peer reason, .ban peer reason 0 ∈ history.outputs := by
  have run : Run laxDraft .genesis Verification.rehearsed _ _ :=
    Run.start.replay calledOff [.malicious .emptyResponse] rfl
  exact ⟨laxDraft, laxDraft, _, _, rfl, run, ⟨4⟩, .emptyResponse, by decide⟩

end Synchronizer

end Catchup
