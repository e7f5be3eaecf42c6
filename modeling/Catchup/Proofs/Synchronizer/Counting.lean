import Catchup.Proofs.Synchronizer.Invariant
import Catchup.Proofs.Synchronizer.PeerControl

/-! What a synchronizer counts, against what it sends and what it tells of itself.

The counters are set in the branches of the handlers, far from where the outputs are put together.
Here each step is shown to count what it sends, and every request of a run to be charged once at
most: to its timeout, to the acceptance of its answer, or to the wait for it. -/

set_option autoImplicit false

namespace Catchup

namespace Metric

def isVersions : Metric → Bool
  | .versions .. => true
  | _ => false

def statusRequests? : Metric → Option Nat
  | .statusRequestsSent count => some count
  | _ => none

def banned? : Metric → Option String
  | .peerBanned label => some label
  | _ => none

/-- No output belongs to what is counted. -/
def isAside : Metric → Bool
  | .versions .. | .checkCompleted _ | .requestTimedOut | .commitOverdue => true
  | _ => false

end Metric

namespace Output

def isPriority : Output → Bool
  | .prioritize _ => true
  | _ => false

/-- The ground of a ban, as it is counted. -/
def banned? : Output → Option String
  | .ban _ reason _ => some reason.label
  | _ => none

end Output

/-- How many requests are out: one at most. -/
def Phase.waiting (phase : Phase) : Nat := if phase.pending?.isSome then 1 else 0

theorem Phase.waiting_syncing (pursuit : Pursuit) :
    (Phase.syncing pursuit).waiting = if pursuit.pending.isSome then 1 else 0 := rfl

theorem Phase.waiting_of_not_syncing {phase : Phase} (other : phase.kind ≠ .syncing) :
    phase.waiting = 0 := by
  cases phase with
  | idle | checking => rfl
  | syncing pursuit => exact absurd rfl other

theorem Phase.waiting_eq_status (phase : Phase) :
    phase.waiting = if (Status.ofPhase phase).pending.isSome then 1 else 0 := by
  cases phase <;> rfl

namespace Synchronizer

variable {σ : Type}

/-- What is counted agrees with what is sent. -/
structure Tallies (outputs : List Output) (metrics : List Metric) : Prop where
  requests : metrics.count .requestSent = outputs.countP Output.isRequest
  /-- The status requests of a step are counted together, unless there are none. -/
  statusRequests : metrics.filterMap Metric.statusRequests? =
    [(outputs.filterMap Output.asked?).length].filter (0 < ·)
  acceptances : metrics.count .responseAccepted = outputs.countP Output.isPriority
  bans : metrics.filterMap Metric.banned? = outputs.filterMap Output.banned?
  unsolicited : ∀ label, .responseUnsolicited label ∈ metrics → outputs = []

/-- The counters of a step close with the versions that the status tells, which are told only once;
the ones before agree with the outputs. -/
structure TellsOneStory (reaction : Reaction) : Prop where
  versions : ∃ counted, (∀ metric ∈ counted, metric.isVersions = false) ∧
    reaction.metrics = counted ++ [.versions reaction.synchronizer.status.current
      (reaction.synchronizer.status.target.getD reaction.synchronizer.status.current)
      (decide (reaction.synchronizer.status.kind = .syncing))]
  behind : reaction.synchronizer.status.current.toNat + reaction.synchronizer.status.behind =
    (reaction.synchronizer.status.target.getD reaction.synchronizer.status.current).toNat
  syncing : 0 < reaction.synchronizer.status.behind ↔
    reaction.synchronizer.status.kind = .syncing
  tallies : Tallies reaction.outputs reaction.metrics

def History.metrics (history : History σ) : List Metric :=
  history.flatMap fun record => record.reaction.metrics

/-! ## Tallies -/

section
variable {outputs : List Output} {metrics aside : List Metric}

theorem count_aside (beside : ∀ metric ∈ aside, metric.isAside = true) {metric : Metric}
    (tied : metric.isAside = false) : aside.count metric = 0 := by
  apply List.count_eq_zero.mpr
  intro member
  have other := beside metric member
  rw [tied] at other
  cases other

theorem filterMap_aside {α : Type} {read : Metric → Option α}
    (beside : ∀ metric ∈ aside, metric.isAside = true)
    (tied : ∀ metric, metric.isAside = true → read metric = none) :
    aside.filterMap read = [] := by
  apply List.filterMap_eq_nil_iff.mpr
  intro metric member
  exact tied metric (beside metric member)

/-- More may be counted before and after, as long as no output belongs to it. -/
theorem Tallies.between {first last : List Metric} (tallies : Tallies outputs metrics)
    (before : ∀ metric ∈ first, metric.isAside = true)
    (after : ∀ metric ∈ last, metric.isAside = true) :
    Tallies outputs (first ++ metrics ++ last) := by
  have same (metric : Metric) (tied : metric.isAside = false) :
      (first ++ metrics ++ last).count metric = metrics.count metric := by
    rw [List.count_append, List.count_append, count_aside before tied, count_aside after tied]
    omega
  have noStatus (metric : Metric) (beside : metric.isAside = true) :
      metric.statusRequests? = none := by
    cases metric <;> first | rfl | cases beside
  have noBan (metric : Metric) (beside : metric.isAside = true) : metric.banned? = none := by
    cases metric <;> first | rfl | cases beside
  constructor
  · rw [same _ rfl]
    exact tallies.requests
  · rw [List.filterMap_append, List.filterMap_append, filterMap_aside before noStatus,
      filterMap_aside after noStatus, List.nil_append, List.append_nil]
    exact tallies.statusRequests
  · rw [same _ rfl]
    exact tallies.acceptances
  · rw [List.filterMap_append, List.filterMap_append, filterMap_aside before noBan,
      filterMap_aside after noBan, List.nil_append, List.append_nil]
    exact tallies.bans
  · intro label member
    rcases List.mem_append.mp member with member | member
    · rcases List.mem_append.mp member with member | member
      · cases before _ member
      · exact tallies.unsolicited label member
    · cases after _ member

theorem Tallies.nothing : Tallies [] [] := by
  constructor <;> simp

end

/-! ## Steps -/

section
variable {judge : Judge σ} {directory : Directory} {store after : σ} {before : Synchronizer}
  {input : Input} {bare : Reaction}

theorem Resumes.counts_aside {pursuit : Pursuit} {metrics : List Metric}
    (resumes : Resumes directory before input pursuit metrics) :
    ∀ metric ∈ metrics, metric.isAside = true ∧ metric.isVersions = false := by
  cases resumes with
  | check | timeout | overdue =>
    intro metric member
    cases List.mem_singleton.mp member
    exact ⟨rfl, rfl⟩
  | ledgerUpdate | advertised | raised | requested =>
    intro metric member
    cases member

theorem Pursues.tallies {pursuit : Pursuit} (pursues : Pursues directory before pursuit bare) :
    Tallies bare.outputs bare.metrics := by
  cases pursues with
  | reached | waiting | exhausted => exact .nothing
  | asked =>
    -- One request goes out with its timer, and one is counted.
    refine ⟨rfl, rfl, rfl, rfl, fun label member => ?_⟩
    cases List.mem_singleton.mp member

theorem tallies_asked {asked : List PeerId} (somebody : asked ≠ []) (number : UInt64)
    (delay : Nat) :
    Tallies (asked.map .sendStatusRequest ++ [.schedule (.statusWindow number) delay])
      [.statusRequestsSent asked.length] := by
  have each : (asked.map Output.sendStatusRequest).filterMap Output.asked? = asked := by
    simp [Function.comp_def, Output.asked?]
  have positive : 0 < asked.length := List.length_pos_of_ne_nil somebody
  constructor
  · simp [Function.comp_def, Output.isRequest]
  · rw [List.filterMap_append, each, List.length_append]
    simp only [List.filterMap_cons, List.filterMap_nil, Output.asked?, Metric.statusRequests?,
      List.length_nil, Nat.add_zero, List.filter_cons, List.filter_nil, positive, decide_true,
      if_true]
  · simp [Function.comp_def, Output.isPriority]
  · have noBan : (asked.map Output.sendStatusRequest).filterMap Output.banned? = [] := by
      simp [Function.comp_def, Output.banned?]
    rw [List.filterMap_append, noBan]
    rfl
  · simp

theorem Transition.tallies
    (transition : Transition judge directory store before input bare after) :
    Tallies bare.outputs bare.metrics := by
  cases transition with
  | ignored | unasked | answered | adopted | satisfied => exact .nothing
  | checkStarted phase window somebody number => exact tallies_asked somebody _ _
  | @checkClosed input check closes nothing =>
    have closed : Tallies [] ([.checkCompleted check.answers.length] ++ [] ++ []) :=
      Tallies.nothing.between (by simp [Metric.isAside]) (by simp)
    exact closed
  | @resumed _ pursuit metrics reaction resumes pursues =>
    have resumed : Tallies reaction.outputs (metrics ++ reaction.metrics ++ []) :=
      pursues.tallies.between (fun metric member => (resumes.counts_aside metric member).1)
        (by simp)
    rwa [List.append_nil] at resumed
  | unsolicited => exact ⟨rfl, rfl, rfl, rfl, fun label member => rfl⟩
  | malicious | accepted =>
    constructor
    · rfl
    · rfl
    · rfl
    · rfl
    · intro label member
      cases List.mem_singleton.mp member

/-- The versions are left to the end of the step. -/
theorem Transition.counts_no_versions
    (transition : Transition judge directory store before input bare after) :
    ∀ metric ∈ bare.metrics, metric.isVersions = false := by
  cases transition with
  | ignored | unasked | answered | adopted | satisfied => intro metric member; cases member
  | checkStarted | checkClosed | unsolicited | malicious | accepted =>
    intro metric member
    cases List.mem_singleton.mp member
    rfl
  | resumed resumes pursues =>
    intro metric member
    rcases List.mem_append.mp member with member | member
    · exact (resumes.counts_aside metric member).2
    · cases pursues with
      | reached | waiting | exhausted => cases member
      | asked =>
        cases List.mem_singleton.mp member
        rfl

/-- The gauges are set from the phase, and the status is put together from it elsewhere: both tell
the same versions. -/
theorem versions_eq_status (reaction : Reaction) :
    reaction.versions = .versions reaction.synchronizer.status.current
      (reaction.synchronizer.status.target.getD reaction.synchronizer.status.current)
      (decide (reaction.synchronizer.status.kind = .syncing)) := by
  obtain ⟨⟨_, phase, _, _, _⟩, _, _⟩ := reaction
  cases phase with
  | idle | checking | syncing => rfl

theorem isAside_versions (reaction : Reaction) : reaction.versions.isAside = true := by
  rw [versions_eq_status]
  rfl

/-- A pursuit that is on is short of its target; otherwise the status tells no target. -/
theorem Sound.status_behind {asked : List PeerId} {synchronizer : Synchronizer}
    (sound : Sound asked synchronizer) :
    synchronizer.status.current.toNat + synchronizer.status.behind =
        (synchronizer.status.target.getD synchronizer.status.current).toNat ∧
      (0 < synchronizer.status.behind ↔ synchronizer.status.kind = .syncing) := by
  cases phase : synchronizer.phase with
  | idle head | checking check =>
    simp only [status, phase]
    exact ⟨rfl, fun some => absurd some (Nat.lt_irrefl 0), nofun⟩
  | syncing pursuit =>
    have short := Version.lt_iff.mp (sound.behind pursuit phase)
    rw [status, phase]
    have distance : (Status.ofPhase (.syncing pursuit)).behind =
        pursuit.target.version.toNat - pursuit.head.version.toNat := rfl
    have current : (Status.ofPhase (.syncing pursuit)).current = pursuit.head.version := rfl
    have target : (Status.ofPhase (.syncing pursuit)).target = some pursuit.target.version := rfl
    rw [distance, current, target, Option.getD_some]
    exact ⟨Nat.add_sub_of_le short.le, fun _ => rfl, fun _ => Nat.sub_pos_of_lt short⟩

theorem Transition.accounts {asked : List PeerId}
    (transition : Transition judge directory store before input bare after)
    (sound : Sound asked bare.synchronizer) : TellsOneStory bare.withVersions := by
  obtain ⟨behind, syncing⟩ := sound.status_behind
  constructor
  · refine ⟨bare.metrics, transition.counts_no_versions, ?_⟩
    exact congrArg (bare.metrics ++ [·]) (versions_eq_status bare)
  · exact behind
  · exact syncing
  · have whole : Tallies bare.outputs ([] ++ bare.metrics ++ [bare.versions]) :=
      transition.tallies.between (by simp) (by simp [isAside_versions])
    exact whole

end

/-! ## Requests and what becomes of them -/

section
variable {directory : Directory} {before : Synchronizer} {input : Input} {bare : Reaction}

/-- When a pursuit goes on, what is waited for was waited for before or has just been sent. -/
theorem Pursues.charges {pursuit : Pursuit} (pursues : Pursues directory before pursuit bare) :
    bare.metrics.count .requestTimedOut = 0 ∧ bare.metrics.count .responseAccepted = 0 ∧
      bare.synchronizer.phase.waiting ≤
        (Phase.syncing pursuit).waiting + bare.outputs.countP Output.isRequest := by
  cases pursues with
  | reached => exact ⟨rfl, rfl, Nat.zero_le _⟩
  | waiting => exact ⟨rfl, rfl, Nat.le_refl _⟩
  | exhausted => exact ⟨rfl, rfl, Nat.le_refl _⟩
  | asked => exact ⟨rfl, rfl, Nat.le_add_left 1 _⟩

/-- A timeout is charged to the request that was out, which is no longer waited for. -/
theorem Resumes.charges {pursuit : Pursuit} {metrics : List Metric}
    (resumes : Resumes directory before input pursuit metrics) :
    metrics.count .responseAccepted = 0 ∧
      metrics.count .requestTimedOut + (Phase.syncing pursuit).waiting ≤
        before.phase.waiting := by
  cases resumes with
  | check | advertised | requested => exact ⟨rfl, Nat.zero_le _⟩
  | timeout phase out =>
    refine ⟨rfl, ?_⟩
    rw [phase, Phase.waiting_syncing, Phase.waiting_syncing, out]
    exact Nat.le_refl 1
  | ledgerUpdate phase ahead => rw [phase]; exact ⟨rfl, (Nat.zero_add _).le⟩
  | overdue phase late => rw [phase]; exact ⟨rfl, (Nat.zero_add _).le⟩
  | raised phase known ahead => rw [phase]; exact ⟨rfl, (Nat.zero_add _).le⟩

variable {proofs : Proofs} {commit : Committer σ} {store after : σ}

/-- What a step counts as timed out or accepted, and what it waits for then, had been waited for or
has just been sent. -/
theorem Transition.charges
    (transition : Transition (Verification.judge proofs commit) directory store before input bare
      after) :
    bare.metrics.count .requestTimedOut + bare.metrics.count .responseAccepted +
        bare.synchronizer.phase.waiting ≤
      before.phase.waiting + bare.outputs.countP Output.isRequest := by
  cases transition with
  | ignored | unasked | unsolicited | malicious => exact (Nat.zero_add _).le
  | checkStarted | answered | checkClosed | satisfied => exact Nat.zero_le _
  | adopted other ahead =>
    -- No pursuit is on, before or after.
    rw [enter, quietly, Phase.waiting_of_not_syncing ((Phase.kind_withHead ..).trans_ne other)]
    exact Nat.zero_le _
  | resumed resumes pursues =>
    obtain ⟨noneTimedOut, noneAccepted, waits⟩ := pursues.charges
    obtain ⟨alsoNone, freed⟩ := resumes.charges
    simp only [List.count_append]
    omega
  | accepted phase judged =>
    -- The judge lets an answer through only from the peer whose request is out.
    have solicited := (Verification.decides_of_judge judged).solicited nofun
    obtain ⟨⟨id, out⟩, -⟩ := Verification.checkSolicited_eq_ok_iff.mp solicited
    rw [phase, Phase.waiting_syncing, out]
    exact Nat.le_refl 1

end

/-! ## Runs -/

section
variable {settings : Settings} {head : Header} {history : History σ} {synchronizer : Synchronizer}

theorem Run.charges {proofs : Proofs} {commit : Committer σ}
    (run : Run settings head (Verification.judge proofs commit) history synchronizer) :
    history.metrics.count .requestTimedOut + history.metrics.count .responseAccepted +
      synchronizer.phase.waiting ≤ history.requestsSent := by
  refine run.keeps (Nat.le_refl 0) fun history before record bare _ ih transition same => ?_
  have charged := transition.charges
  have outputs : record.reaction.outputs = bare.outputs := same ▸ rfl
  have metrics : record.reaction.metrics = bare.metrics ++ [bare.versions] := same ▸ rfl
  simp only [History.metrics, History.requestsSent, History.outputs, List.flatMap_cons,
    List.countP_append, List.count_append, outputs, metrics, versions_eq_status] at ih ⊢
  simp
  omega

/-- A run tells one story: the counters of every step agree with what it sends and close with the
versions that the status tells. A timeout, an acceptance and the wait for an answer each belong to a
request of their own, so together they never outnumber the requests that have gone out. -/
theorem Run.tells_one_story {proofs : Proofs} {commit : Committer σ}
    (run : Run settings head (Verification.judge proofs commit) history synchronizer) :
    (∀ record ∈ history, TellsOneStory record.reaction) ∧
    history.metrics.count .requestTimedOut + history.metrics.count .responseAccepted +
      (if synchronizer.status.pending.isSome then 1 else 0) ≤ history.requestsSent := by
  constructor
  · refine run.keeps (fun record member => absurd member List.not_mem_nil) ?_
    intro history before record bare earlier ih transition same later member
    rcases List.mem_cons.mp member with rfl | member
    · rw [same]
      exact transition.accounts (transition.sound earlier.sound)
    · exact ih later member
  · have charged := run.charges
    rwa [Phase.waiting_eq_status] at charged

end

/-- The request to peer 4 times out, the answer of peer 7 is accepted, a late answer is ignored, and
the report of what is committed leads to a third request: all three are accounted for. -/
theorem tells_one_story_of_three_requests :
    ∃ (history : History Unit) (synchronizer : Synchronizer),
      Run {} .genesis (Verification.judge .trusting fun _ store => (.ok (), store)) history
        synchronizer ∧
      (∀ record ∈ history, TellsOneStory record.reaction) ∧
      history.metrics.count .requestTimedOut = 1 ∧ history.metrics.count .responseAccepted = 1 ∧
      history.metrics.count (.responseUnsolicited "no_request_pending") = 1 ∧
      synchronizer.status.pending = some ⟨⟨4⟩, ⟨3⟩⟩ ∧ history.requestsSent = 3 ∧
      1 + 1 + 1 ≤ history.requestsSent := by
  have run : Run {} .genesis
      (Verification.judge .trusting fun _ (store : Unit) => (.ok (), store)) _ _ :=
    Run.start.replay
      [(PeerSet.ofList [⟨4⟩, ⟨7⟩], .localRequest ⟨⟨3⟩, 0, 0, .zero⟩ [⟨4⟩, ⟨7⟩]),
        (PeerSet.ofList [⟨4⟩, ⟨7⟩], .requestTimedOut ⟨4⟩ ⟨1⟩),
        (PeerSet.ofList [⟨4⟩, ⟨7⟩],
          .syncResponse ⟨7⟩ ⟨.genesis, [⟨[1]⟩], ⟨⟨1⟩, 0, 5, .zero⟩⟩),
        (PeerSet.ofList [⟨4⟩, ⟨7⟩],
          .syncResponse ⟨4⟩ ⟨.genesis, [⟨[1]⟩], ⟨⟨1⟩, 0, 5, .zero⟩⟩),
        (PeerSet.ofList [⟨4⟩, ⟨7⟩], .ledgerUpdate ⟨⟨1⟩, 0, 5, .zero⟩)] () rfl
  obtain ⟨told, charged⟩ := run.tells_one_story
  exact ⟨_, _, run, told, rfl, rfl, rfl, rfl, rfl, charged⟩

end Synchronizer

end Catchup
