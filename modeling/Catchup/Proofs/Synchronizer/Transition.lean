import Catchup.Synchronizer.Step

/-! What one step of the synchronizer can do.

`Pursues` lists the ways in which a pursuit goes on, `Resumes` the inputs that make one go on,
`Transition` everything that an input can lead to, and `Overflows` what can break a step off. The
handlers are opened here and nowhere else: by `handle_cases` every step is one or the other. -/

set_option autoImplicit false

namespace Catchup.Synchronizer

/-! ## Pursuits -/

/-- The candidates that are still connected. -/
def available (directory : Directory) (pursuit : Pursuit) : List PeerId :=
  pursuit.candidates.peers.filter directory.has

/-- The request that goes out when the first of the available candidates is asked. -/
def asking (before : Synchronizer) (pursuit : Pursuit) (peer : PeerId) (rest : List PeerId)
    (nextRequest : RequestId) : Reaction :=
  { synchronizer := { before.enter (.syncing { pursuit with
        candidates := ⟨rest ++ [peer]⟩
        pending := some ⟨peer, before.nextRequest⟩ }) with nextRequest }
    outputs := [.sendSyncRequest peer ⟨pursuit.head, before.nextRequest⟩,
      .schedule (.request peer before.nextRequest) before.settings.requestTimeout]
    metrics := [.requestSent] }

inductive Pursues (directory : Directory) (before : Synchronizer) (pursuit : Pursuit) :
    Reaction → Prop where
  | reached : pursuit.isSynced = true →
      Pursues directory before pursuit (before.enter (.idle pursuit.head)).quietly
  | waiting : pursuit.isSynced = false → pursuit.pending ≠ none →
      Pursues directory before pursuit (before.enter (.syncing pursuit)).quietly
  | exhausted : pursuit.isSynced = false → pursuit.pending = none →
      available directory pursuit = [] →
      Pursues directory before pursuit
        (before.enter (.syncing { pursuit with candidates := .empty })).quietly
  | asked {peer : PeerId} {rest : List PeerId} {nextRequest : RequestId} :
      pursuit.isSynced = false → pursuit.pending = none →
      available directory pursuit = peer :: rest → before.nextRequest.next = .ok nextRequest →
      Pursues directory before pursuit (before.asking pursuit peer rest nextRequest)

structure Asks (directory : Directory) (pursuit : Pursuit) : Prop where
  behind : pursuit.isSynced = false
  free : pursuit.pending = none
  available : available directory pursuit ≠ []

theorem retain_eq (directory : Directory) (pursuit : Pursuit) :
    (pursuit.candidates.retain directory.has).2 = ⟨available directory pursuit⟩ := rfl

theorem pursue_of_free {directory : Directory} {before : Synchronizer} {pursuit : Pursuit}
    (behind : pursuit.isSynced = false) (free : pursuit.pending = none) :
    before.pursue directory pursuit = match available directory pursuit with
      | [] => .ok (before.enter (.syncing { pursuit with candidates := .empty })).quietly
      | peer :: rest => (before.nextRequest.next).map (before.asking pursuit peer rest) := by
  have idle : pursuit.isWaiting = false := by simp [Pursuit.isWaiting, free]
  simp only [pursue, behind, idle, Bool.false_eq_true, if_false, retain_eq]
  cases available directory pursuit with
  | nil => rfl
  | cons peer rest =>
    simp only [Candidates.fetchNext, Candidates.front?, List.head?_cons, Option.map_some,
      Candidates.rotate_cons]
    cases before.nextRequest.next with
    | error fault => rfl
    | ok next =>
      have asked : { pursuit with candidates := ⟨rest ++ [peer]⟩ }.withPending peer
          before.nextRequest = .ok { pursuit with
            candidates := ⟨rest ++ [peer]⟩, pending := some ⟨peer, before.nextRequest⟩ } :=
        Pursuit.withPending_of_none free
      simp only [bind, Except.bind, asked]
      rfl

theorem pursues_of_pursue {directory : Directory} {before : Synchronizer} {pursuit : Pursuit}
    {reaction : Reaction} (done : before.pursue directory pursuit = .ok reaction) :
    Pursues directory before pursuit reaction := by
  cases behind : pursuit.isSynced with
  | true =>
    simp only [pursue, behind, if_true, Except.ok.injEq] at done
    exact done ▸ .reached behind
  | false =>
    by_cases free : pursuit.pending = none
    · rw [pursue_of_free behind free] at done
      split at done
      next gone => cases done; exact .exhausted behind free gone
      next peer rest found =>
        obtain ⟨next, number, rfl⟩ := exists_of_map_eq_ok done
        exact .asked behind free found number
    · have waiting : pursuit.isWaiting = true := Option.isSome_iff_ne_none.mpr free
      simp only [pursue, behind, waiting, Bool.false_eq_true, if_false, if_true,
        Except.ok.injEq] at done
      exact done ▸ .waiting behind free

/-- Only the number of the next request can keep a pursuit from going on. -/
theorem asks_of_pursue {directory : Directory} {before : Synchronizer} {pursuit : Pursuit}
    {fault : Fault} (failed : before.pursue directory pursuit = .error fault) :
    Asks directory pursuit ∧ before.nextRequest.next = .error fault := by
  cases behind : pursuit.isSynced with
  | true => simp [pursue, behind] at failed
  | false =>
    by_cases free : pursuit.pending = none
    · rw [pursue_of_free behind free] at failed
      split at failed
      next => cases failed
      next peer rest found =>
        refine ⟨⟨behind, free, by simp [found]⟩, ?_⟩
        cases number : before.nextRequest.next with
        | error cause => simpa [number, Except.map] using failed
        | ok next => simp [number, Except.map] at failed
    · have waiting : pursuit.isWaiting = true := Option.isSome_iff_ne_none.mpr free
      simp [pursue, behind, waiting] at failed

/-! ## Inputs -/

/-- The inputs that end a status check, and the check as it stands then. -/
inductive Closes (before : Synchronizer) : Input → StatusCheck → Prop where
  | lastAnswer {check : StatusCheck} {peer : PeerId} {header : Header} :
      before.phase = .checking check → check.isWaitingFor peer = true →
      (check.record peer header).isComplete = true →
      Closes before (.statusResponse peer header) (check.record peer header)
  | window {check : StatusCheck} :
      before.phase = .checking check → Closes before (.statusWindowClosed check.number) check

structure Finds (check : StatusCheck) (chosen : PeerId) (target : Header) : Prop where
  best : check.best? = some (chosen, target)
  ahead : target.isAheadOf check.head = true

def found (check : StatusCheck) (chosen : PeerId) (target : Header) : Pursuit :=
  .ofPeers check.head (chosen :: (check.peersAt target.version).filter (· ≠ chosen)) target

/-- The inputs that make a pursuit go on, the pursuit as it stands then, and what is counted
first. -/
inductive Resumes (directory : Directory) (before : Synchronizer) :
    Input → Pursuit → List Metric → Prop where
  | check {input : Input} {check : StatusCheck} {chosen : PeerId} {target : Header} :
      Closes before input check → Finds check chosen target →
      Resumes directory before input (found check chosen target)
        [.checkCompleted check.answers.length]
  | timeout {pursuit : Pursuit} {peer : PeerId} {id : RequestId} :
      before.phase = .syncing pursuit → pursuit.pending = some ⟨peer, id⟩ →
      Resumes directory before (.requestTimedOut peer id)
        { pursuit with candidates := (pursuit.candidates.rotatePast peer).2, pending := none }
        [.requestTimedOut]
  | ledgerUpdate {pursuit : Pursuit} {header : Header} :
      before.phase = .syncing pursuit → header.isAheadOf pursuit.head = true →
      Resumes directory before (.ledgerUpdate header) (pursuit.withHead header) []
  | overdue {pursuit : Pursuit} {expected : Version} :
      before.phase = .syncing pursuit → ¬ expected < pursuit.head.version →
      Resumes directory before (.commitOverdue expected) pursuit [.commitOverdue]
  | advertised {peer : PeerId} {head header : Header} :
      before.phase = .idle head → directory.has peer = true → header.isAheadOf head = true →
      Resumes directory before (.advertisement peer header) (.ofPeers head [peer] header) []
  | raised {pursuit : Pursuit} {peer : PeerId} {header : Header} :
      before.phase = .syncing pursuit → directory.has peer = true →
      header.isAheadOf pursuit.target = true →
      Resumes directory before (.advertisement peer header)
        ({ pursuit with target := header }.withCandidate peer) []
  | requested {target : Header} {peers : List PeerId} :
      target.isAheadOf before.head = true →
      Resumes directory before (.localRequest target peers) (.ofPeers before.head peers target) []

/-- The inputs that have nothing to act on. -/
inductive Ignores (directory : Directory) (before : Synchronizer) : Input → Prop where
  | checkDue : before.phase.kind ≠ .idle → Ignores directory before .checkDue
  | statusResponse {peer : PeerId} {header : Header} :
      (∀ check, before.phase = .checking check → check.isWaitingFor peer = false) →
      Ignores directory before (.statusResponse peer header)
  | statusWindowClosed {number : UInt64} :
      (∀ check, before.phase = .checking check → check.number ≠ number) →
      Ignores directory before (.statusWindowClosed number)
  | requestTimedOut {peer : PeerId} {id : RequestId} :
      (∀ pursuit, before.phase = .syncing pursuit → pursuit.pending ≠ some ⟨peer, id⟩) →
      Ignores directory before (.requestTimedOut peer id)
  | syncResponse {peer : PeerId} {extension : Extension} :
      before.phase.kind ≠ .syncing → Ignores directory before (.syncResponse peer extension)
  | ledgerUpdate {header : Header} :
      header.isAheadOf before.head = false → Ignores directory before (.ledgerUpdate header)
  | commitOverdue {expected : Version} :
      (∀ pursuit, before.phase = .syncing pursuit → expected < pursuit.head.version) →
      Ignores directory before (.commitOverdue expected)
  | stranger {peer : PeerId} {header : Header} :
      directory.has peer = false → Ignores directory before (.advertisement peer header)
  | advertisement {peer : PeerId} {header : Header} :
      (∀ head, before.phase = .idle head → header.isAheadOf head = false) →
      (∀ pursuit, before.phase = .syncing pursuit → header.isAheadOf pursuit.target = false) →
      Ignores directory before (.advertisement peer header)

variable {σ : Type}

/-- What an input leads to, the closing count of versions aside. -/
inductive Transition (judge : Judge σ) (directory : Directory) (store : σ) (before : Synchronizer) :
    Input → Reaction → σ → Prop where
  | ignored {input : Input} : Ignores directory before input →
      Transition judge directory store before input before.quietly store
  | unasked {head : Header} {checkOffset : Nat} :
      before.phase = .idle head → before.checkWindow directory = .ok ([], checkOffset) →
      Transition judge directory store before .checkDue { before with checkOffset }.quietly store
  | checkStarted {head : Header} {asked : List PeerId} {checkOffset : Nat} {number : UInt64} :
      before.phase = .idle head → before.checkWindow directory = .ok (asked, checkOffset) →
      asked ≠ [] → increment before.lastCheck = .ok number →
      Transition judge directory store before .checkDue
        { synchronizer := { before with
            phase := .checking (.ofPeers number head asked), lastCheck := number, checkOffset }
          outputs := asked.map .sendStatusRequest ++
            [.schedule (.statusWindow number) before.settings.statusWindow]
          metrics := [.statusRequestsSent asked.length] } store
  | answered {check : StatusCheck} {peer : PeerId} {header : Header} :
      before.phase = .checking check → check.isWaitingFor peer = true →
      (check.record peer header).isComplete = false →
      Transition judge directory store before (.statusResponse peer header)
        (before.enter (.checking (check.record peer header))).quietly store
  | checkClosed {input : Input} {check : StatusCheck} :
      Closes before input check → (∀ chosen target, ¬ Finds check chosen target) →
      Transition judge directory store before input
        ((before.enter (.idle check.head)).quietly.counting (.checkCompleted check.answers.length))
        store
  | resumed {input : Input} {pursuit : Pursuit} {metrics : List Metric} {reaction : Reaction} :
      Resumes directory before input pursuit metrics → Pursues directory before pursuit reaction →
      Transition judge directory store before input
        { reaction with metrics := metrics ++ reaction.metrics } store
  | unsolicited {pursuit : Pursuit} {peer : PeerId} {extension : Extension} {reason : Unsolicited}
      {after : σ} : before.phase = .syncing pursuit →
      judge pursuit peer extension store = (.unsolicited reason, after) →
      Transition judge directory store before (.syncResponse peer extension)
        ⟨before, [], [.responseUnsolicited reason.label]⟩ after
  | malicious {pursuit : Pursuit} {peer : PeerId} {extension : Extension} {reason : Misconduct}
      {after : σ} : before.phase = .syncing pursuit →
      judge pursuit peer extension store = (.malicious reason, after) →
      Transition judge directory store before (.syncResponse peer extension)
        ⟨before, [.ban peer reason before.settings.banDuration], [.peerBanned reason.label]⟩ after
  | accepted {pursuit : Pursuit} {peer : PeerId} {extension : Extension} {after : σ} :
      before.phase = .syncing pursuit →
      judge pursuit peer extension store = (.accepted, after) →
      Transition judge directory store before (.syncResponse peer extension)
        ⟨before.enter (.syncing { pursuit with pending := none }),
          [.prioritize peer,
            .schedule (.commit pursuit.head.version) before.settings.commitTimeout],
          [.responseAccepted]⟩ after
  | adopted {header : Header} :
      before.phase.kind ≠ .syncing → header.isAheadOf before.head = true →
      Transition judge directory store before (.ledgerUpdate header)
        (before.enter (before.phase.withHead header)).quietly store
  | satisfied {target : Header} {peers : List PeerId} :
      target.isAheadOf before.head = false →
      Transition judge directory store before (.localRequest target peers)
        (before.enter before.phase.toIdle).quietly store

/-- The inputs for which a counter has no next value. -/
inductive Overflows (directory : Directory) (before : Synchronizer) : Input → Fault → Prop where
  | offset {head : Header} {fault : Fault} :
      before.phase = .idle head → before.checkWindow directory = .error fault →
      Overflows directory before .checkDue fault
  | check {head : Header} {asked : List PeerId} {checkOffset : Nat} {fault : Fault} :
      before.phase = .idle head → before.checkWindow directory = .ok (asked, checkOffset) →
      asked ≠ [] → increment before.lastCheck = .error fault →
      Overflows directory before .checkDue fault
  | request {input : Input} {pursuit : Pursuit} {metrics : List Metric} {fault : Fault} :
      Resumes directory before input pursuit metrics → Asks directory pursuit →
      before.nextRequest.next = .error fault → Overflows directory before input fault

/-- The result of a handler is a transition, or an overflow has broken it off. -/
def Explains (judge : Judge σ) (directory : Directory) (store : σ) (before : Synchronizer)
    (input : Input) : Except Fault Reaction → Prop
  | .ok reaction => Transition judge directory store before input reaction store
  | .error fault => Overflows directory before input fault

/-! ## Handlers -/

section
variable {judge : Judge σ} {directory : Directory} {store : σ} {before : Synchronizer}

theorem explains_pursue {input : Input} {pursuit : Pursuit} {metrics : List Metric}
    (resumes : Resumes directory before input pursuit metrics) :
    Explains judge directory store before input ((before.pursue directory pursuit).map
      fun reaction => { reaction with metrics := metrics ++ reaction.metrics }) := by
  cases step : before.pursue directory pursuit with
  | error fault =>
    obtain ⟨asks, full⟩ := asks_of_pursue step
    exact .request resumes asks full
  | ok reaction => exact .resumed resumes (pursues_of_pursue step)

theorem explains_pursue_uncounted {input : Input} {pursuit : Pursuit}
    (resumes : Resumes directory before input pursuit []) :
    Explains judge directory store before input (before.pursue directory pursuit) := by
  have uncounted : (before.pursue directory pursuit).map
      (fun reaction => { reaction with metrics := [] ++ reaction.metrics }) =
      before.pursue directory pursuit := by
    cases before.pursue directory pursuit <;> rfl
  exact uncounted ▸ explains_pursue resumes

theorem explains_checkDue :
    Explains judge directory store before .checkDue (before.onCheckDue directory) := by
  unfold onCheckDue
  split
  next head phase =>
    cases window : before.checkWindow directory with
    | error fault => exact .offset phase window
    | ok chosen =>
      obtain ⟨asked, checkOffset⟩ := chosen
      simp only [bind, Except.bind]
      split
      next nobody => exact .unasked phase (List.isEmpty_iff.mp nobody ▸ window)
      next somebody =>
        have chosen : asked ≠ [] := by simpa using somebody
        cases number : increment before.lastCheck with
        | error fault => exact .check phase window chosen number
        | ok number => exact .checkStarted phase window chosen ‹_›
  next other =>
    refine .ignored (.checkDue fun idle => ?_)
    obtain ⟨head, phase⟩ := Phase.kind_eq_idle_iff.mp idle
    exact other head phase

theorem finishCheck_of_finds {check : StatusCheck} {chosen : PeerId} {target : Header}
    (finds : Finds check chosen target) :
    before.finishCheck directory check =
      (before.pursue directory (found check chosen target)).map fun reaction =>
        reaction.counting (.checkCompleted check.answers.length) := by
  simp only [finishCheck, finds.best, finds.ahead, if_true]
  rfl

theorem finishCheck_of_nothing {check : StatusCheck}
    (nothing : ∀ chosen target, ¬ Finds check chosen target) :
    before.finishCheck directory check =
      .ok ((before.enter (.idle check.head)).quietly.counting
        (.checkCompleted check.answers.length)) := by
  unfold finishCheck
  cases best : check.best? with
  | none => rfl
  | some answer =>
    obtain ⟨chosen, target⟩ := answer
    have low : ¬ target.isAheadOf check.head = true := fun ahead => nothing _ _ ⟨best, ahead⟩
    simp only [low, Bool.false_eq_true, if_false]
    rfl

theorem explains_finishCheck {input : Input} {check : StatusCheck}
    (closes : Closes before input check) :
    Explains judge directory store before input (before.finishCheck directory check) := by
  by_cases finds : ∃ chosen target, Finds check chosen target
  · obtain ⟨chosen, target, finds⟩ := finds
    rw [finishCheck_of_finds finds]
    exact explains_pursue (.check closes finds)
  · have nothing (chosen : PeerId) (target : Header) : ¬ Finds check chosen target :=
      fun found => finds ⟨chosen, target, found⟩
    rw [finishCheck_of_nothing nothing]
    exact .checkClosed closes nothing

theorem explains_statusResponse {peer : PeerId} {header : Header} :
    Explains judge directory store before (.statusResponse peer header)
      (before.onStatusResponse directory peer header) := by
  unfold onStatusResponse
  split
  next check phase =>
    by_cases waiting : check.isWaitingFor peer = true
    · by_cases complete : (check.record peer header).isComplete = true
      · simp only [waiting, complete, if_true]
        exact explains_finishCheck (.lastAnswer phase waiting complete)
      · simp only [waiting, complete, if_true, Bool.false_eq_true, if_false]
        exact .answered phase waiting (Bool.eq_false_iff.mpr complete)
    · simp only [waiting, Bool.false_eq_true, if_false]
      refine .ignored (.statusResponse fun other same => ?_)
      cases phase.symm.trans same
      exact Bool.eq_false_iff.mpr waiting
  next other => exact .ignored (.statusResponse fun check phase => absurd phase (other check))

theorem explains_statusWindowClosed {number : UInt64} :
    Explains judge directory store before (.statusWindowClosed number)
      (before.onStatusWindowClosed directory number) := by
  unfold onStatusWindowClosed
  split
  next check phase =>
    by_cases current : check.number = number
    · subst current
      simp only [if_true]
      exact explains_finishCheck (.window phase)
    · simp only [current, if_false]
      refine .ignored (.statusWindowClosed fun other same => ?_)
      cases phase.symm.trans same
      exact current
  next other => exact .ignored (.statusWindowClosed fun check phase => absurd phase (other check))

theorem explains_requestTimedOut {peer : PeerId} {id : RequestId} :
    Explains judge directory store before (.requestTimedOut peer id)
      (before.onRequestTimedOut directory peer id) := by
  unfold onRequestTimedOut
  split
  next pursuit phase =>
    by_cases live : pursuit.pending = some ⟨peer, id⟩
    · simp only [live, if_true, Pursuit.clearPending, bind, Except.bind]
      -- The timeout is counted behind a bind, so its two outcomes are matched one by one.
      have explained : Explains judge directory store before (.requestTimedOut peer id) _ :=
        explains_pursue (.timeout phase live)
      cases step : before.pursue directory { pursuit with
          candidates := (pursuit.candidates.rotatePast peer).2, pending := none } with
      | error fault => rw [step] at explained; exact explained
      | ok reaction => rw [step] at explained; exact explained
    · simp only [live, if_false]
      refine .ignored (.requestTimedOut fun other same => ?_)
      cases phase.symm.trans same
      exact live
  next other => exact .ignored (.requestTimedOut fun pursuit phase => absurd phase (other pursuit))

theorem explains_ledgerUpdate {header : Header} :
    Explains judge directory store before (.ledgerUpdate header)
      (before.onLedgerUpdate directory header) := by
  unfold onLedgerUpdate
  by_cases ahead : header.isAheadOf before.head = true
  · simp only [ahead, if_true]
    split
    next pursuit phase =>
      have further : header.isAheadOf pursuit.head = true := by
        simpa [head, phase, Phase.head] using ahead
      exact explains_pursue_uncounted (.ledgerUpdate phase further)
    next other =>
      refine .adopted (fun syncing => ?_) ahead
      obtain ⟨pursuit, phase⟩ := Phase.kind_eq_syncing_iff.mp syncing
      exact other pursuit phase
  · simp only [ahead, Bool.false_eq_true, if_false]
    exact .ignored (.ledgerUpdate (Bool.eq_false_iff.mpr ahead))

theorem explains_commitOverdue {expected : Version} :
    Explains judge directory store before (.commitOverdue expected)
      (before.onCommitOverdue directory expected) := by
  unfold onCommitOverdue
  split
  next pursuit phase =>
    by_cases obsolete : expected < pursuit.head.version
    · simp only [obsolete, if_true]
      refine .ignored (.commitOverdue fun other same => ?_)
      cases phase.symm.trans same
      exact obsolete
    · simp only [obsolete, if_false]
      exact explains_pursue (.overdue phase obsolete)
  next other => exact .ignored (.commitOverdue fun pursuit phase => absurd phase (other pursuit))

theorem explains_advertisement {peer : PeerId} {header : Header} :
    Explains judge directory store before (.advertisement peer header)
      (before.onAdvertisement directory peer header) := by
  unfold onAdvertisement
  by_cases known : directory.has peer = true
  · simp only [known, if_true]
    cases phase : before.phase with
    | idle head =>
      by_cases ahead : header.isAheadOf head = true
      · simp only [ahead, if_true]
        exact explains_pursue_uncounted (.advertised phase known ahead)
      · simp only [ahead, Bool.false_eq_true, if_false]
        refine .ignored (.advertisement (fun other same => ?_) (by simp [phase]))
        cases phase.symm.trans same
        exact Bool.eq_false_iff.mpr ahead
    | syncing pursuit =>
      by_cases ahead : header.isAheadOf pursuit.target = true
      · simp only [ahead, if_true, Pursuit.withTarget]
        exact explains_pursue_uncounted (.raised phase known ahead)
      · simp only [ahead, Bool.false_eq_true, if_false]
        refine .ignored (.advertisement (by simp [phase]) fun other same => ?_)
        cases phase.symm.trans same
        exact Bool.eq_false_iff.mpr ahead
    | checking check => exact .ignored (.advertisement (by simp [phase]) (by simp [phase]))
  · simp only [known, Bool.false_eq_true, if_false]
    exact .ignored (.stranger (Bool.eq_false_iff.mpr known))

theorem explains_localRequest {target : Header} {peers : List PeerId} :
    Explains judge directory store before (.localRequest target peers)
      (before.onLocalRequest directory target peers) := by
  unfold onLocalRequest
  by_cases ahead : target.isAheadOf before.head = true
  · simp only [ahead, if_true]
    exact explains_pursue_uncounted (.requested ahead)
  · simp only [ahead, Bool.false_eq_true, if_false]
    exact .satisfied (Bool.eq_false_iff.mpr ahead)

/-- Without a response to judge, the handlers above are all there is. -/
theorem explains_react {input : Input}
    (unjudged : ∀ peer extension, input = .syncResponse peer extension →
      before.phase.kind ≠ .syncing) :
    Explains judge directory store before input (before.react directory input) := by
  cases input with
  | checkDue => exact explains_checkDue
  | statusResponse peer header => exact explains_statusResponse
  | statusWindowClosed number => exact explains_statusWindowClosed
  | requestTimedOut peer id => exact explains_requestTimedOut
  | syncResponse peer extension => exact .ignored (.syncResponse (unjudged peer extension rfl))
  | ledgerUpdate header => exact explains_ledgerUpdate
  | commitOverdue expected => exact explains_commitOverdue
  | advertisement peer header => exact explains_advertisement
  | localRequest target peers => exact explains_localRequest

/-! ## Steps -/

/-- An accepted response leaves nothing pending, whether or not something was. -/
theorem onVerdict_accepted (pursuit : Pursuit) (peer : PeerId) :
    before.onVerdict pursuit peer .accepted =
      .ok ⟨before.enter (.syncing { pursuit with pending := none }),
        [.prioritize peer, .schedule (.commit pursuit.head.version) before.settings.commitTimeout],
        [.responseAccepted]⟩ := by
  by_cases waiting : pursuit.isWaiting = true
  · simp only [onVerdict, waiting, if_true, Pursuit.clearPending_of_isWaiting waiting]
    rfl
  · have free : pursuit.pending = none := by simpa [Pursuit.isWaiting] using waiting
    -- Where nothing was pending, clearing it changes nothing.
    have same : { pursuit with pending := none } = pursuit := by rw [← free]
    simp only [onVerdict, waiting, Bool.false_eq_true, if_false, same]
    rfl

theorem handle_of_syncing {pursuit : Pursuit} {peer : PeerId} {extension : Extension}
    (phase : before.phase = .syncing pursuit) :
    before.handle judge directory store (.syncResponse peer extension) =
      (before.onVerdict pursuit peer (judge pursuit peer extension store).1).map
        fun reaction => (reaction.withVersions, (judge pursuit peer extension store).2) := by
  simp only [handle, phase]
  cases before.onVerdict pursuit peer (judge pursuit peer extension store).1 <;> rfl

theorem handle_of_unjudged {input : Input}
    (unjudged : ∀ peer extension, input = .syncResponse peer extension →
      before.phase.kind ≠ .syncing) :
    before.handle judge directory store input =
      (before.react directory input).map fun reaction => (reaction.withVersions, store) := by
  unfold handle
  split
  next peer extension pursuit phase =>
    exact absurd (by rw [phase]; rfl) (unjudged peer extension rfl)
  next actual _ _ _ => cases before.react directory actual <;> rfl

theorem handle_of_closes {input : Input} {check : StatusCheck}
    (closes : Closes before input check) :
    before.handle judge directory store input =
      (before.finishCheck directory check).map fun reaction => (reaction.withVersions, store) := by
  cases closes with
  | lastAnswer phase waiting complete =>
    rw [handle_of_unjudged (by simp)]
    simp only [react, onStatusResponse, phase, waiting, complete, if_true]
  | window phase =>
    rw [handle_of_unjudged (by simp)]
    simp only [react, onStatusWindowClosed, phase, if_true]

/-- Whatever makes a pursuit go on, the step is that of the pursuit. -/
theorem handle_of_resumes {input : Input} {pursuit : Pursuit} {metrics : List Metric}
    (resumes : Resumes directory before input pursuit metrics) :
    before.handle judge directory store input = (before.pursue directory pursuit).map
      fun reaction =>
        ({ reaction with metrics := metrics ++ reaction.metrics }.withVersions, store) := by
  cases resumes with
  | check closes finds =>
    rw [handle_of_closes closes, finishCheck_of_finds finds]
    cases before.pursue directory _ <;> rfl
  | timeout phase out =>
    rw [handle_of_unjudged (by simp)]
    simp only [react, onRequestTimedOut, phase, out, if_true, Pursuit.clearPending, bind,
      Except.bind]
    cases before.pursue directory _ <;> rfl
  | ledgerUpdate phase ahead =>
    rw [handle_of_unjudged (by simp)]
    simp only [react, onLedgerUpdate, head, phase, Phase.head, ahead, if_true]
    cases before.pursue directory _ <;> rfl
  | overdue phase late =>
    rw [handle_of_unjudged (by simp)]
    simp only [react, onCommitOverdue, phase, late, if_false]
    cases before.pursue directory _ <;> rfl
  | advertised phase known ahead =>
    rw [handle_of_unjudged (by simp)]
    simp only [react, onAdvertisement, known, phase, ahead, if_true]
    cases before.pursue directory _ <;> rfl
  | raised phase known ahead =>
    rw [handle_of_unjudged (by simp)]
    simp only [react, onAdvertisement, known, phase, ahead, if_true, Pursuit.withTarget]
    cases before.pursue directory _ <;> rfl
  | requested ahead =>
    rw [handle_of_unjudged (by simp)]
    simp only [react, onLocalRequest, ahead, if_true]
    cases before.pursue directory _ <;> rfl

/-- A step is a transition with the versions counted at its end, or an overflow. -/
theorem handle_cases (judge : Judge σ) (directory : Directory) (store : σ) (before : Synchronizer)
    (input : Input) :
    (∃ bare after, Transition judge directory store before input bare after ∧
      before.handle judge directory store input = .ok (bare.withVersions, after)) ∨
    ∃ fault, Overflows directory before input fault ∧
      before.handle judge directory store input = .error fault := by
  -- The judge is asked in one combination of input and phase; the handlers explain the others.
  by_cases judged : ∃ peer extension pursuit,
      input = .syncResponse peer extension ∧ before.phase = .syncing pursuit
  · obtain ⟨peer, extension, pursuit, rfl, phase⟩ := judged
    left
    rw [handle_of_syncing phase]
    rcases decided : judge pursuit peer extension store with ⟨verdict, after⟩
    cases verdict with
    | accepted =>
      rw [onVerdict_accepted]
      exact ⟨_, after, .accepted phase decided, rfl⟩
    | unsolicited reason => exact ⟨_, after, .unsolicited phase decided, rfl⟩
    | malicious reason => exact ⟨_, after, .malicious phase decided, rfl⟩
  · have unjudged : ∀ peer extension, input = .syncResponse peer extension →
        before.phase.kind ≠ .syncing := by
      intro peer extension same syncing
      obtain ⟨pursuit, phase⟩ := Phase.kind_eq_syncing_iff.mp syncing
      exact judged ⟨peer, extension, pursuit, same, phase⟩
    have explained : Explains judge directory store before input _ := explains_react unjudged
    rw [handle_of_unjudged unjudged]
    cases reacted : before.react directory input with
    | error fault => rw [reacted] at explained; exact .inr ⟨fault, explained, rfl⟩
    | ok bare => rw [reacted] at explained; exact .inl ⟨bare, store, explained, rfl⟩

theorem transition_of_handle {input : Input} {reaction : Reaction} {after : σ}
    (done : before.handle judge directory store input = .ok (reaction, after)) :
    ∃ bare, Transition judge directory store before input bare after ∧
      reaction = bare.withVersions := by
  rcases handle_cases judge directory store before input with
    ⟨bare, _, transition, step⟩ | ⟨_, _, step⟩
  · cases step.symm.trans done
    exact ⟨bare, transition, rfl⟩
  · cases step.symm.trans done

/-! ## What is sent -/

theorem Pursues.sends_request {pursuit : Pursuit} {bare : Reaction}
    (pursues : Pursues directory before pursuit bare) {peer : PeerId} {request : SyncRequest}
    (sent : .sendSyncRequest peer request ∈ bare.outputs) :
    ∃ rest nextRequest, available directory pursuit = peer :: rest ∧
      before.nextRequest.next = .ok nextRequest ∧ Asks directory pursuit ∧
      request = ⟨pursuit.head, before.nextRequest⟩ ∧
      bare = before.asking pursuit peer rest nextRequest := by
  cases pursues with
  | reached | waiting | exhausted => cases sent
  | asked behind free found next =>
    obtain ⟨rfl, rfl⟩ : peer = _ ∧ request = _ := by simpa [asking] using sent
    exact ⟨_, _, found, next, ⟨behind, free, by simp [found]⟩, rfl, rfl⟩

/-- Requests go out only when a pursuit goes on, and then the first available candidate is asked. -/
theorem Transition.sends_request {input : Input} {bare : Reaction} {after : σ}
    (transition : Transition judge directory store before input bare after) {peer : PeerId}
    {request : SyncRequest} (sent : .sendSyncRequest peer request ∈ bare.outputs) :
    ∃ pursuit metrics rest nextRequest, Resumes directory before input pursuit metrics ∧
      available directory pursuit = peer :: rest ∧ before.nextRequest.next = .ok nextRequest ∧
      Asks directory pursuit ∧ request = ⟨pursuit.head, before.nextRequest⟩ ∧
      bare = { before.asking pursuit peer rest nextRequest with
        metrics := metrics ++ [.requestSent] } := by
  cases transition with
  | resumed resumes pursues =>
    obtain ⟨rest, nextRequest, found, next, asks, same, rfl⟩ := pursues.sends_request sent
    exact ⟨_, _, rest, nextRequest, resumes, found, next, asks, same, rfl⟩
  | checkStarted phase window somebody number => simp at sent
  | malicious phase judged => cases List.mem_singleton.mp sent
  | accepted phase judged => simp at sent
  | ignored | unasked | answered | checkClosed | unsolicited | adopted | satisfied => cases sent

end

end Catchup.Synchronizer
