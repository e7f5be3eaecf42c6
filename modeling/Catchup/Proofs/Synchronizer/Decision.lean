import Catchup.Proofs.StatusCheck
import Catchup.Proofs.Synchronizer.Turns

/-! What a status check decides.

While a check is on, answers come in any order, more than once, and from peers that nobody has
asked; the ledger may grow and the directory may change. The check counts the first answer of each
peer it has asked and, once all of them are there or its window has closed, follows the best. -/

set_option autoImplicit false

namespace Catchup

/-! ## Answers -/

namespace StatusCheck

variable {answers others : List (PeerId × Header)} {best held : PeerId × Header}

theorem FirstHighest.mem (highest : FirstHighest answers best) : best ∈ answers := by
  obtain ⟨earlier, later, rfl, -, -⟩ := highest
  exact List.mem_append_right earlier List.mem_cons_self

/-- In which order the answers come in may change whose is the best, but not how high it is. -/
theorem FirstHighest.version_eq (highest : FirstHighest answers best)
    (other : FirstHighest others held) (same : answers.Perm others) :
    best.2.version = held.2.version := by
  have below := Version.le_iff.mp (other.le (same.subset highest.mem))
  have above := Version.le_iff.mp (highest.le (same.symm.subset other.mem))
  exact Version.toNat_inj.mp (Nat.le_antisymm below above)

theorem firstHighest_of_best? {check : StatusCheck} (chose : check.best? = some best) :
    FirstHighest check.answers best := by
  rcases foldl_better check.answers with ⟨-, none⟩ | ⟨held, same, highest⟩
  · cases none.symm.trans chose
  · cases same.symm.trans chose
    exact highest

theorem answers_of_best?_eq_none {check : StatusCheck} (chose : check.best? = none) :
    check.answers = [] := by
  rcases foldl_better check.answers with ⟨nobody, -⟩ | ⟨held, same, -⟩
  · exact nobody
  · cases same.symm.trans chose

/-- The check after an input, as long as the ledger stays as it is. -/
def heard (check : StatusCheck) : Input → StatusCheck
  | .statusResponse peer header => check.record peer header
  | _ => check

theorem heard_of_not_waiting {check : StatusCheck} {input : Input}
    (strange : ∀ peer header, input = .statusResponse peer header →
      check.isWaitingFor peer = false) : check.heard input = check := by
  cases input with
  | statusResponse peer header => exact record_of_not_waiting (strange peer header rfl)
  | checkDue | statusWindowClosed | requestTimedOut | syncResponse | ledgerUpdate | commitOverdue
  | advertisement | localRequest => rfl

@[simp] theorem head_heard (check : StatusCheck) (input : Input) :
    (check.heard input).head = check.head := by
  unfold heard record
  split
  · split <;> rfl
  · rfl

end StatusCheck

namespace Synchronizer

variable {σ : Type}

/-- The answers that count, in order of arrival, when the last input comes first. -/
def tally (asked : List PeerId) : List Input → List (PeerId × Header)
  | [] => []
  | .statusResponse peer header :: earlier =>
    if peer ∈ asked ∧ peer ∉ (tally asked earlier).map Prod.fst then
      tally asked earlier ++ [(peer, header)]
    else tally asked earlier
  | _ :: earlier => tally asked earlier

theorem nodup_tally (asked : List PeerId) (inputs : List Input) :
    ((tally asked inputs).map Prod.fst).Nodup := by
  induction inputs using tally.induct asked with
  | case1 => exact List.nodup_nil
  | case2 peer header earlier counts ih =>
    rw [tally, if_pos counts, List.map_append]
    refine ih.append (List.nodup_singleton peer) ?_
    exact List.disjoint_singleton.mpr counts.2
  | case3 peer header earlier repeated ih => rwa [tally, if_neg repeated]
  | case4 input earlier other ih => rwa [tally]; exact other

theorem asked_of_mem_tally {asked : List PeerId} {inputs : List Input} {answer : PeerId × Header}
    (counted : answer ∈ tally asked inputs) : answer.1 ∈ asked := by
  induction inputs using tally.induct asked with
  | case1 => cases counted
  | case2 peer header earlier counts ih =>
    rw [tally, if_pos counts] at counted
    rcases List.mem_append.mp counted with before | new
    · exact ih before
    · cases List.mem_singleton.mp new
      exact counts.1
  | case3 peer header earlier repeated ih =>
    rw [tally, if_neg repeated] at counted
    exact ih counted
  | case4 input earlier other ih =>
    rw [tally] at counted
    · exact ih counted
    · exact other

/-- Does the input end the check: as the one answer that is missing, or as the end of its window? -/
def Ends (asked : List PeerId) (number : UInt64) (answers : List (PeerId × Header)) : Input → Prop
  | .statusResponse peer _ => peer ∈ asked ∧ peer ∉ answers.map Prod.fst ∧
    ∀ other ∈ asked, other = peer ∨ other ∈ answers.map Prod.fst
  | .statusWindowClosed closed => closed = number
  | _ => False

/-- The check has counted these answers and waits for those of the other peers it has asked. -/
structure Counts (asked : List PeerId) (number : UInt64) (counted : List (PeerId × Header))
    (check : StatusCheck) : Prop where
  number : check.number = number
  answers : check.answers = counted
  waiting : ∀ peer, check.isWaitingFor peer = true ↔ peer ∈ asked ∧ peer ∉ counted.map Prod.fst

theorem Counts.ofPeers (asked : List PeerId) (number : UInt64) (head : Header) :
    Counts asked number [] (.ofPeers number head asked) :=
  ⟨rfl, rfl, fun peer => by simp [StatusCheck.isWaitingFor_iff, StatusCheck.ofPeers]⟩

section
variable {asked : List PeerId} {number : UInt64} {earlier : List Input} {check closed : StatusCheck}
  {before : Synchronizer} {input : Input}

theorem Counts.heard (counts : Counts asked number (tally asked earlier) check) (input : Input) :
    Counts asked number (tally asked (input :: earlier)) (check.heard input) := by
  cases input with
  | statusResponse peer header =>
    by_cases waiting : check.isWaitingFor peer = true
    · rw [tally, if_pos ((counts.waiting peer).mp waiting), StatusCheck.heard,
        StatusCheck.record_of_waiting waiting]
      refine ⟨counts.number, congrArg (· ++ [(peer, header)]) counts.answers, fun other => ?_⟩
      have held := counts.waiting other
      rw [StatusCheck.isWaitingFor_iff] at held ⊢
      simp only [PeerSet.mem_erase, held, List.map_append, List.map_cons, List.map_nil,
        List.mem_append, List.mem_singleton]
      tauto
    · rw [tally, if_neg (mt (counts.waiting peer).mpr waiting), StatusCheck.heard,
        StatusCheck.record_of_not_waiting (Bool.eq_false_iff.mpr waiting)]
      exact counts
  | checkDue | statusWindowClosed | requestTimedOut | syncResponse | ledgerUpdate | commitOverdue
  | advertisement | localRequest => exact counts

theorem Counts.isComplete_iff {answers : List (PeerId × Header)}
    (counts : Counts asked number answers check) :
    check.isComplete = true ↔ ∀ peer ∈ asked, peer ∈ answers.map Prod.fst := by
  rw [StatusCheck.isComplete_iff, List.eq_nil_iff_forall_not_mem]
  refine forall_congr' fun peer => ?_
  rw [← StatusCheck.isWaitingFor_iff, counts.waiting]
  tauto

theorem Closes.checking (closes : Closes before input closed) :
    ∃ check, before.phase = .checking check ∧ closed = check.heard input := by
  cases closes with
  | lastAnswer phase waiting complete => exact ⟨_, phase, rfl⟩
  | window phase => exact ⟨_, phase, rfl⟩

theorem Counts.exists_closes_iff (counts : Counts asked number (tally asked earlier) check)
    (phase : before.phase = .checking check) :
    (∃ closed, Closes before input closed) ↔ Ends asked number (tally asked earlier) input := by
  cases input with
  | statusResponse peer header =>
    have complete := (counts.heard (.statusResponse peer header)).isComplete_iff
    have counted (new : peer ∈ asked ∧ peer ∉ (tally asked earlier).map Prod.fst) (other : PeerId) :
        other ∈ (tally asked (.statusResponse peer header :: earlier)).map Prod.fst ↔
          other = peer ∨ other ∈ (tally asked earlier).map Prod.fst := by
      rw [tally, if_pos new]
      simp [or_comm]
    constructor
    · rintro ⟨closed, closes⟩
      cases closes with
      | lastAnswer other waits done =>
        cases phase.symm.trans other
        have new := (counts.waiting peer).mp waits
        refine ⟨new.1, new.2, fun other member => ?_⟩
        exact (counted new other).mp (complete.mp done other member)
    · rintro ⟨member, unheard, rest⟩
      have new := And.intro member unheard
      refine ⟨_, .lastAnswer phase ((counts.waiting peer).mpr new) (complete.mpr ?_)⟩
      exact fun other member => (counted new other).mpr (rest other member)
  | statusWindowClosed closed =>
    constructor
    · rintro ⟨check, closes⟩
      cases closes with
      | window other =>
        cases phase.symm.trans other
        exact counts.number
    · rintro rfl
      obtain rfl := counts.number
      exact ⟨check, .window phase⟩
  | checkDue | requestTimedOut | syncResponse | ledgerUpdate | commitOverdue | advertisement
  | localRequest =>
    refine ⟨?_, False.elim⟩
    rintro ⟨closed, closes⟩
    cases closes

end

/-! ## Decisions -/

/-- The connected peers that have answered with a version, in order of arrival. -/
def connected (directory : Directory) (answers : List (PeerId × Header)) (version : Version) :
    List PeerId :=
  ((answers.filter fun answer => answer.2.version = version).map Prod.fst).filter directory.has

/-- What the answers make of a check. The request goes to the first candidate, and fails to go out
only when there is no number left for the one after it. -/
inductive Decides (directory : Directory) (before : Synchronizer)
    (answers : List (PeerId × Header)) : Except Fault Reaction → Prop where
  | satisfied : (∀ answer ∈ answers, answer.2.version ≤ before.head.version) →
      Decides directory before answers (.ok (before.enter (.idle before.head)).quietly)
  | deserted {chosen : PeerId} {target : Header} :
      StatusCheck.FirstHighest answers (chosen, target) →
      before.head.version < target.version → connected directory answers target.version = [] →
      Decides directory before answers
        (.ok (before.enter (.syncing ⟨before.head, target, .empty, none⟩)).quietly)
  | behind {chosen first : PeerId} {rest : List PeerId} {target : Header} :
      StatusCheck.FirstHighest answers (chosen, target) →
      before.head.version < target.version →
      connected directory answers target.version = first :: rest →
      Decides directory before answers (before.nextRequest.next.map
        (before.asking (.ofPeers before.head (first :: rest) target) first rest))

/-- What a decision comes to, in whichever order the answers have come in. -/
theorem Decides.outcome {directory : Directory} {before : Synchronizer}
    {answers : List (PeerId × Header)} {reaction : Reaction}
    (decides : Decides directory before answers (.ok reaction)) :
    ((∀ answer ∈ answers, answer.2.version ≤ before.head.version) ∧
      reaction.synchronizer.phase = .idle before.head) ∨
    ∃ best pursuit, StatusCheck.FirstHighest answers best ∧
      before.head.version < best.2.version ∧ reaction.synchronizer.phase = .syncing pursuit ∧
      pursuit.target = best.2 ∧
      pursuit.candidates.peers.Perm (connected directory answers best.2.version) := by
  generalize decided : Except.ok reaction = decision at decides
  cases decides with
  | satisfied below =>
    cases decided
    exact .inl ⟨below, rfl⟩
  | deserted highest ahead nobody =>
    cases decided
    exact .inr ⟨_, _, highest, ahead, rfl, rfl, nobody ▸ .refl _⟩
  | @behind chosen first rest target highest ahead front =>
    obtain ⟨next, numbered, rfl⟩ := exists_of_map_eq_ok decided.symm
    refine .inr ⟨_, _, highest, ahead, rfl, rfl, ?_⟩
    -- The first candidate has been asked and stands at the back by now.
    show (rest ++ [first]).Perm (connected directory answers target.version)
    exact front ▸ List.perm_append_singleton first rest

theorem perm_connected {directory other : Directory} {answers others : List (PeerId × Header)}
    (same : answers.Perm others) (has : directory.has = other.has) (version : Version) :
    (connected directory answers version).Perm (connected other others version) := by
  rw [connected, connected, has]
  exact ((same.filter _).map _).filter _

/-- Decisions by the same answers, taken at the same version, differ at most in whom they ask first
and which header of the highest version they follow. -/
theorem Decides.agree {directory other : Directory} {before current : Synchronizer}
    {answers others : List (PeerId × Header)} {left right : Reaction}
    (decides : Decides directory before answers (.ok left))
    (decided : Decides other current others (.ok right)) (same : answers.Perm others)
    (level : before.head.version = current.head.version) :
    left.synchronizer.phase.kind = right.synchronizer.phase.kind ∧
    left.synchronizer.status.target = right.synchronizer.status.target ∧
    (directory.has = other.has →
      left.synchronizer.candidates.Perm right.synchronizer.candidates) := by
  rcases decides.outcome with
    ⟨below, idle⟩ | ⟨best, pursuit, highest, ahead, syncing, target, queue⟩
  · rcases decided.outcome with ⟨-, waiting⟩ | ⟨held, -, highest, ahead, -⟩
    · simp [status, Status.ofPhase, Status.initial, candidates, idle, waiting, Phase.kind,
        Phase.pursuit?]
    · have low := Version.le_iff.mp (below held (same.symm.subset highest.mem))
      rw [level] at low
      exact absurd (Version.lt_iff.mp ahead) (Nat.not_lt.mpr low)
  · rcases decided.outcome with ⟨below, -⟩ | ⟨held, other, top, -, pursuing, goal, queued⟩
    · have low := Version.le_iff.mp (below best (same.subset highest.mem))
      rw [← level] at low
      exact absurd (Version.lt_iff.mp ahead) (Nat.not_lt.mpr low)
    · have version := highest.version_eq top same
      refine ⟨by rw [syncing, pursuing]; rfl, ?_, fun has => ?_⟩
      · simp [status, Status.ofPhase, syncing, pursuing, target, goal, version]
      · rw [candidates_of_phase syncing, candidates_of_phase pursuing]
        rw [← version] at queued
        exact queue.trans ((perm_connected same has best.2.version).trans queued.symm)

section
variable {judge : Judge σ} {directory : Directory} {store after : σ} {before : Synchronizer}
  {input : Input} {bare : Reaction} {check closed : StatusCheck}

/-- The best answer is the earliest of its version, so its peer comes first of itself. -/
theorem candidates_found {chosen : PeerId} {target : Header}
    (highest : StatusCheck.FirstHighest check.answers (chosen, target))
    (distinct : (check.answers.map Prod.fst).Nodup) :
    chosen :: (check.peersAt target.version).filter (· ≠ chosen) =
      check.peersAt target.version := by
  obtain ⟨earlier, later, split, below, -⟩ := highest
  have lower : earlier.filter (fun answer => answer.2.version = target.version) = [] := by
    refine List.filter_eq_nil_iff.mpr fun other member same => ?_
    have less := Version.lt_iff.mp (below other member)
    rw [of_decide_eq_true same] at less
    exact Nat.lt_irrefl _ less
  have front : check.peersAt target.version =
      chosen :: (later.filter fun answer => answer.2.version = target.version).map Prod.fst := by
    rw [StatusCheck.peersAt, split, List.filter_append, lower]
    simp
  rw [split, List.map_append, List.map_cons] at distinct
  have once : chosen ∉ later.map Prod.fst :=
    (List.nodup_cons.mp (List.nodup_append.mp distinct).2.1).1
  rw [front, List.filter_cons_of_neg (by simp), List.filter_eq_self.mpr]
  intro other member
  refine decide_eq_true fun same => once ?_
  obtain ⟨answer, kept, rfl⟩ := List.mem_map.mp (same ▸ member)
  exact List.mem_map_of_mem (List.mem_filter.mp kept).1

theorem isSynced_found {chosen : PeerId} {target : Header} (finds : Finds check chosen target) :
    (found check chosen target).isSynced = false := by
  refine decide_eq_false fun reached => ?_
  exact Version.not_lt.mpr reached (Header.isAheadOf_iff_lt.mp finds.ahead)

theorem le_head_of_not_finds (nothing : ∀ chosen target, ¬ Finds check chosen target)
    {answer : PeerId × Header} (member : answer ∈ check.answers) :
    answer.2.version ≤ check.head.version := by
  cases best : check.best? with
  | none =>
    rw [StatusCheck.answers_of_best?_eq_none best] at member
    cases member
  | some held =>
    have below := (StatusCheck.firstHighest_of_best? best).le member
    have low : ¬ held.2.isAheadOf check.head = true := fun ahead => nothing _ _ ⟨best, ahead⟩
    exact Version.le_trans below (Header.isAheadOf_eq_false_iff.mp (Bool.eq_false_iff.mpr low))

theorem exists_decides (directory : Directory) (head : check.head = before.head)
    (distinct : (check.answers.map Prod.fst).Nodup) :
    ∃ decision, Decides directory before check.answers decision ∧
      before.finishCheck directory check =
        decision.map fun reaction => reaction.counting (.checkCompleted check.answers.length) := by
  by_cases finds : ∃ chosen target, Finds check chosen target
  · obtain ⟨chosen, target, finds⟩ := finds
    have highest := StatusCheck.firstHighest_of_best? finds.best
    have ahead : before.head.version < target.version :=
      Header.isAheadOf_iff_lt.mp (head ▸ finds.ahead)
    have queue : available directory (found check chosen target) =
        connected directory check.answers target.version :=
      congrArg (List.filter directory.has) (candidates_found highest distinct)
    refine ⟨_, ?_, finishCheck_of_finds finds⟩
    rw [pursue_of_free (isSynced_found finds) rfl, queue]
    cases front : connected directory check.answers target.version with
    | nil =>
      have decided := Decides.deserted highest ahead front
      rwa [← head] at decided
    | cons first rest =>
      have decided := Decides.behind highest ahead front
      rwa [← head] at decided
  · have nothing (chosen : PeerId) (target : Header) : ¬ Finds check chosen target :=
      fun found => finds ⟨chosen, target, found⟩
    rw [finishCheck_of_nothing nothing, head]
    exact ⟨_, .satisfied fun answer member => head ▸ le_head_of_not_finds nothing member, rfl⟩

/-! ## Steps -/

theorem Resumes.closes_of_checking {pursuit : Pursuit} {metrics : List Metric}
    (resumes : Resumes directory before input pursuit metrics)
    (phase : before.phase = .checking check)
    (own : ∀ target peers, input ≠ .localRequest target peers) :
    ∃ closed, Closes before input closed := by
  cases resumes with
  | check closes finds => exact ⟨_, closes⟩
  | timeout other | ledgerUpdate other | overdue other | raised other | advertised other =>
    cases phase.symm.trans other
  | requested ahead => exact absurd rfl (own _ _)

/-- What a check does with an input that does not end it. -/
theorem Transition.of_checking
    (transition : Transition judge directory store before input bare after)
    (phase : before.phase = .checking check)
    (own : ∀ target peers, input ≠ .localRequest target peers) :
    after = store ∧ ((∃ closed, Closes before input closed) ∧
        bare.synchronizer.phase.kind ≠ .checking ∨
      bare.outputs = [] ∧
        ∃ head, bare.synchronizer.phase = .checking { check.heard input with head }) := by
  cases transition with
  | ignored ignores =>
    refine ⟨rfl, .inr ⟨rfl, check.head, phase.trans (congrArg Phase.checking ?_)⟩⟩
    rw [StatusCheck.heard_of_not_waiting]
    rintro peer header rfl
    cases ignores with
    | statusResponse strange => exact strange check phase
  | answered other waiting incomplete =>
    cases phase.symm.trans other
    exact ⟨rfl, .inr ⟨rfl, _, rfl⟩⟩
  | checkClosed closes nothing => exact ⟨rfl, .inl ⟨⟨_, closes⟩, nofun⟩⟩
  | resumed resumes pursues =>
    refine ⟨rfl, .inl ⟨resumes.closes_of_checking phase own, ?_⟩⟩
    cases pursues <;> nofun
  | @adopted header other ahead =>
    refine ⟨rfl, .inr ⟨rfl, header, ?_⟩⟩
    simp only [quietly, enter, phase, Phase.withHead]
    rfl
  | unasked other | checkStarted other | unsolicited other | malicious other | accepted other =>
    cases phase.symm.trans other
  | satisfied reached => exact absurd rfl (own _ _)

theorem Overflows.closes_of_checking {fault : Fault}
    (overflows : Overflows directory before input fault) (phase : before.phase = .checking check)
    (own : ∀ target peers, input ≠ .localRequest target peers) :
    ∃ closed, Closes before input closed := by
  cases overflows with
  | offset other | check other => cases phase.symm.trans other
  | request resumes asks full => exact resumes.closes_of_checking phase own

/-- A step starts a check if it opens the window of one. -/
theorem Transition.of_window
    (transition : Transition judge directory store before input bare after) {number : UInt64}
    {delay : Nat} (opens : .schedule (.statusWindow number) delay ∈ bare.outputs) :
    ∃ head, bare.synchronizer.phase =
      .checking (.ofPeers number head (bare.outputs.filterMap Output.asked?)) := by
  cases transition with
  | @checkStarted head asked checkOffset chosen phase window somebody counted =>
    obtain ⟨rfl, rfl⟩ : number = chosen ∧ delay = before.settings.statusWindow := by
      simpa using opens
    exact ⟨head, by simp [List.filterMap_cons, Output.asked?, Function.comp_def]⟩
  | resumed resumes pursues =>
    cases pursues with
    | reached | waiting | exhausted => cases opens
    | asked behind free found next => simp [asking] at opens
  | malicious phase judged => cases List.mem_singleton.mp opens
  | accepted phase judged => simp at opens
  | ignored | unasked | answered | checkClosed | unsolicited | adopted | satisfied => cases opens

end

/-! ## Runs -/

/-- The peers that a step has sent status requests to. -/
def Record.asked (record : Record σ) : List PeerId :=
  record.reaction.outputs.filterMap Output.asked?

/-- A status check that the opening step has started and that has been on ever since. -/
structure Checks (settings : Settings) (head : Header) (judge : Judge σ) (earlier : History σ)
    (opening : Record σ) (number : UInt64) (since : History σ) (current : Synchronizer) : Prop where
  run : Run settings head judge (opening :: earlier) opening.reaction.synchronizer
  opens : ∃ delay, .schedule (.statusWindow number) delay ∈ opening.reaction.outputs
  episode : Episode judge opening.reaction.synchronizer since current

section
variable {settings : Settings} {head : Header} {judge : Judge σ} {earlier since : History σ}
  {opening : Record σ} {number : UInt64} {current : Synchronizer}

theorem Checks.counts (checks : Checks settings head judge earlier opening number since current) :
    ∃ check, current.phase = .checking check ∧
      Counts opening.asked number (tally opening.asked since.inputs) check := by
  obtain ⟨run, ⟨delay, opens⟩, episode⟩ := checks
  obtain ⟨started, phase⟩ : ∃ started, opening.reaction.synchronizer.phase =
      .checking (.ofPeers number started opening.asked) := by
    cases run with
    | step record before done =>
      obtain ⟨bare, transition, same⟩ := transition_of_handle done
      rw [Record.asked, same]
      exact transition.of_window (same ▸ opens)
  refine episode.keeps ⟨_, phase, .ofPeers _ _ _⟩ ?_
  intro since before record bare _ ih transition same own kind
  obtain ⟨check, checking, counts⟩ := ih
  obtain ⟨-, ⟨-, left⟩ | ⟨-, head, kept⟩⟩ := transition.of_checking checking own
  · exact absurd (kind.trans (congrArg Phase.kind phase)) left
  · obtain ⟨number, answers, waiting⟩ := counts.heard record.input
    exact ⟨_, kept, number, answers, waiting⟩

/-- A check that has ended with a step, and the answers that have counted. -/
inductive Concludes (answers : List (PeerId × Header)) (before : Synchronizer) (record : Record σ) :
    Prop where
  | intro {settings : Settings} {head : Header} {judge : Judge σ} {earlier since : History σ}
      {opening : Record σ} {number : UInt64} :
      Checks settings head judge earlier opening number since before →
      Ends opening.asked number (tally opening.asked since.inputs) record.input →
      before.handle judge record.directory record.store record.input =
        .ok (record.reaction, record.after) →
      answers = tally opening.asked (record.input :: since.inputs) →
      Concludes answers before record

/-- An input that does not end a check. -/
theorem Checks.stays_open
    (checks : Checks settings head judge earlier opening number since current)
    (directory : Directory) (store : σ) {input : Input}
    (own : ∀ target peers, input ≠ .localRequest target peers)
    (ongoing : ¬ Ends opening.asked number (tally opening.asked since.inputs) input) :
    ∃ reaction, current.handle judge directory store input = .ok (reaction, store) ∧
      reaction.outputs = [] ∧ reaction.synchronizer.phase.kind = .checking := by
  obtain ⟨check, phase, counts⟩ := checks.counts
  have closes := mt (counts.exists_closes_iff phase).mp ongoing
  rcases handle_cases judge directory store current input with
    ⟨bare, after, transition, step⟩ | ⟨fault, overflows, step⟩
  · obtain ⟨rfl, ⟨ends, -⟩ | ⟨silent, head, kept⟩⟩ := transition.of_checking phase own
    · exact absurd ends closes
    · exact ⟨_, step, silent, congrArg Phase.kind kept⟩
  · exact absurd (overflows.closes_of_checking phase own) closes

/-- The input that ends a check. -/
theorem Checks.exists_decision
    (checks : Checks settings head judge earlier opening number since current)
    (directory : Directory) (store : σ) {input : Input}
    (ends : Ends opening.asked number (tally opening.asked since.inputs) input) :
    ∃ decision,
      Decides directory current (tally opening.asked (input :: since.inputs)) decision ∧
      current.handle judge directory store input = decision.map fun reaction =>
        ((reaction.counting (.checkCompleted
          (tally opening.asked (input :: since.inputs)).length)).withVersions, store) := by
  obtain ⟨check, phase, counts⟩ := checks.counts
  obtain ⟨closed, closes⟩ := (counts.exists_closes_iff phase).mpr ends
  obtain ⟨again, checking, rfl⟩ := closes.checking
  cases phase.symm.trans checking
  have answers := (counts.heard input).answers
  have head : (check.heard input).head = current.head := by
    rw [StatusCheck.head_heard, Synchronizer.head, phase]
    rfl
  have distinct : ((check.heard input).answers.map Prod.fst).Nodup :=
    answers ▸ nodup_tally opening.asked (input :: since.inputs)
  obtain ⟨decision, decides, finished⟩ := exists_decides directory head distinct
  refine ⟨decision, answers ▸ decides, ?_⟩
  rw [handle_of_closes closes, finished, answers]
  cases decision <;> rfl

theorem Concludes.exists_decides {answers : List (PeerId × Header)} {before : Synchronizer}
    {record : Record σ} (concludes : Concludes answers before record) :
    ∃ bare, Decides record.directory before answers (.ok bare) ∧
      record.reaction.synchronizer = bare.synchronizer := by
  obtain ⟨checks, ends, done, rfl⟩ := concludes
  obtain ⟨decision, decides, step⟩ := checks.exists_decision record.directory record.store ends
  obtain ⟨bare, rfl, same⟩ := exists_of_map_eq_ok (step.symm.trans done)
  exact ⟨bare, decides, congrArg (fun done => done.1.synchronizer) same.symm⟩

/-- A check counts the first answer of each peer it has asked, and goes on in silence until the last
of them answers or its window closes. Then it decides by the earliest of the highest answers: if
that is ahead, its header is pursued from the connected peers that gave the same version, in order
of arrival, and the first of them is asked; otherwise nothing is sent. Which of the highest answers
came first matters only for whose header is the target and whom is asked first. -/
theorem Checks.decides_by_best
    (checks : Checks settings head judge earlier opening number since current)
    (directory : Directory) (store : σ) (input : Input)
    (own : ∀ target peers, input ≠ .localRequest target peers) :
    ((tally opening.asked (input :: since.inputs)).map Prod.fst).Nodup ∧
    (∀ answer ∈ tally opening.asked (input :: since.inputs), answer.1 ∈ opening.asked) ∧
    (¬ Ends opening.asked number (tally opening.asked since.inputs) input →
      ∃ reaction, current.handle judge directory store input = .ok (reaction, store) ∧
        reaction.outputs = [] ∧ reaction.synchronizer.phase.kind = .checking) ∧
    (Ends opening.asked number (tally opening.asked since.inputs) input →
      (∃ decision,
        Decides directory current (tally opening.asked (input :: since.inputs)) decision ∧
        current.handle judge directory store input = decision.map fun reaction =>
          ((reaction.counting (.checkCompleted
            (tally opening.asked (input :: since.inputs)).length)).withVersions, store)) ∧
      ((since ++ opening :: earlier).requestsSent + 2 < UInt64.size →
        ∃ reaction, current.handle judge directory store input = .ok (reaction, store)) ∧
      ∀ reaction after, current.handle judge directory store input = .ok (reaction, after) →
        ∀ answers other (record : Record σ), Concludes answers other record →
          (tally opening.asked (input :: since.inputs)).Perm answers →
          current.head.version = other.head.version →
          reaction.synchronizer.phase.kind = record.reaction.synchronizer.phase.kind ∧
          reaction.synchronizer.status.target = record.reaction.synchronizer.status.target ∧
          (directory.has = record.directory.has →
            reaction.synchronizer.candidates.Perm record.reaction.synchronizer.candidates)) := by
  refine ⟨nodup_tally _ _, fun answer => asked_of_mem_tally,
    checks.stays_open directory store own, fun ends => ?_⟩
  obtain ⟨decision, decides, step⟩ := checks.exists_decision directory store ends
  refine ⟨⟨decision, decides, step⟩, fun room => ?_, ?_⟩
  · have sent := (checks.episode.run checks.run).nextRequest
    cases decides with
    | satisfied | deserted => exact ⟨_, step⟩
    | behind =>
      cases next : current.nextRequest.next with
      | error fault =>
        have full := (RequestId.next_eq_error_iff.mp next).2
        omega
      | ok number =>
        rw [next] at step
        exact ⟨_, step⟩
  · intro reaction after done answers other record concludes same level
    obtain ⟨left, rfl, reacted⟩ := exists_of_map_eq_ok (step.symm.trans done)
    obtain ⟨right, decided, reached⟩ := concludes.exists_decides
    obtain rfl : _ = reaction := congrArg Prod.fst reacted
    rw [reached]
    exact decides.agree decided same level

end

/-- A check of peers 1, 2 and 3 has just been started. -/
def afterOpening : Synchronizer :=
  { Synchronizer.start {} .genesis with
    phase := .checking (.ofPeers 1 .genesis [⟨1⟩, ⟨2⟩, ⟨3⟩])
    lastCheck := 1 }

/-- Headers of the same version, told apart by whose answer they are. -/
def tiedAnswer (peer : PeerId) : Header := ⟨⟨20⟩, peer.number, 0, .zero⟩

/-- Peers 1 and 3 have answered, and the ledger has grown. -/
def afterAnswers : Synchronizer :=
  { afterOpening with
    phase := .checking ⟨⟨⟨5⟩, 0, 0, .zero⟩, 1, .ofList [⟨2⟩],
      [(⟨1⟩, tiedAnswer ⟨1⟩), (⟨3⟩, tiedAnswer ⟨3⟩)]⟩ }

/-- Peers 3 and 1 tie. A stranger answers higher, peer 3 answers once more, and peer 2 never does:
the check decides for peer 3. Where peer 1 has been faster, the check decides for peer 1. -/
theorem decides_by_best_of_tied :
    ∃ (opening record : Record (List Verdict)) (since : History (List Verdict))
      (current other : Synchronizer) (reaction : Reaction),
      Checks {} .genesis Verification.rehearsed [] opening 1 since current ∧
      since.inputs = [.statusResponse ⟨1⟩ (tiedAnswer ⟨1⟩), .ledgerUpdate ⟨⟨5⟩, 0, 0, .zero⟩,
        .statusResponse ⟨3⟩ ⟨⟨30⟩, 0, 0, .zero⟩, .statusResponse ⟨9⟩ ⟨⟨50⟩, 0, 0, .zero⟩,
        .statusResponse ⟨3⟩ (tiedAnswer ⟨3⟩)] ∧
      tally opening.asked (.statusWindowClosed 1 :: since.inputs) =
        [(⟨3⟩, tiedAnswer ⟨3⟩), (⟨1⟩, tiedAnswer ⟨1⟩)] ∧
      ((tally opening.asked (.statusWindowClosed 1 :: since.inputs)).map Prod.fst).Nodup ∧
      current.handle Verification.rehearsed (PeerSet.ofList [⟨1⟩, ⟨3⟩]) []
        (.statusWindowClosed 1) = .ok (reaction, []) ∧
      reaction.synchronizer.candidates = [⟨1⟩, ⟨3⟩] ∧
      Concludes [(⟨1⟩, tiedAnswer ⟨1⟩), (⟨3⟩, tiedAnswer ⟨3⟩)] other record ∧
      record.reaction.synchronizer.candidates = [⟨3⟩, ⟨1⟩] ∧
      reaction.synchronizer.status.target = record.reaction.synchronizer.status.target := by
  have run : Run {} .genesis Verification.rehearsed _ afterOpening := Run.start.replay
    [(PeerSet.ofList [⟨1⟩, ⟨2⟩, ⟨3⟩], .checkDue)] [] rfl
  let connected : Directory := PeerSet.ofList [⟨1⟩, ⟨3⟩]
  have episode : Episode Verification.rehearsed afterOpening _ _ := Episode.here.replay
    [(connected, .statusResponse ⟨3⟩ (tiedAnswer ⟨3⟩)),
      (connected, .statusResponse ⟨9⟩ ⟨⟨50⟩, 0, 0, .zero⟩),
      (connected, .statusResponse ⟨3⟩ ⟨⟨30⟩, 0, 0, .zero⟩),
      (connected, .ledgerUpdate ⟨⟨5⟩, 0, 0, .zero⟩),
      (connected, .statusResponse ⟨1⟩ (tiedAnswer ⟨1⟩))] [] (by simp) rfl (by decide)
  have faster : Episode Verification.rehearsed afterOpening _ afterAnswers := Episode.here.replay
    [(connected, .statusResponse ⟨1⟩ (tiedAnswer ⟨1⟩)),
      (connected, .statusResponse ⟨3⟩ (tiedAnswer ⟨3⟩)),
      (connected, .ledgerUpdate ⟨⟨5⟩, 0, 0, .zero⟩)] [] (by simp) rfl (by decide)
  have checks : Checks {} .genesis Verification.rehearsed [] _ 1 _ _ :=
    ⟨run, ⟨_, List.mem_append_right _ (.head [])⟩, episode⟩
  have others : Checks {} .genesis Verification.rehearsed [] _ 1 _ _ :=
    ⟨run, ⟨_, List.mem_append_right _ (.head [])⟩, faster⟩
  have closed : afterAnswers.handle Verification.rehearsed connected [] (.statusWindowClosed 1) =
    .ok (_, []) := rfl
  have concludes : Concludes [(⟨1⟩, tiedAnswer ⟨1⟩), (⟨3⟩, tiedAnswer ⟨3⟩)] afterAnswers
    (⟨connected, [], .statusWindowClosed 1, _, []⟩ : Record (List Verdict)) :=
    .intro others rfl closed rfl
  obtain ⟨distinct, -, -, ending⟩ :=
    checks.decides_by_best (PeerSet.ofList [⟨1⟩, ⟨3⟩]) [] (.statusWindowClosed 1) nofun
  obtain ⟨-, -, agree⟩ := ending rfl
  obtain ⟨-, target, -⟩ := agree _ _ rfl _ _ _ concludes (.swap _ _ _) rfl
  exact ⟨_, _, _, _, _, _, checks, rfl, rfl, distinct, rfl, rfl, concludes, rfl, target⟩

end Synchronizer

end Catchup
