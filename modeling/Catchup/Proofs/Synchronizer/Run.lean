import Catchup.Proofs.Synchronizer.Transition
import Mathlib.Data.Multiset.AddSub

/-! Runs of a synchronizer.

A run takes one input after another. Between two steps the directory and the store that the judge
works on may change in any way, so every step brings its own. What a run has sent so far, and which
of its timers are still set, is read off its history. -/

set_option autoImplicit false

namespace Catchup

/-- The timer whose expiry an input reports. -/
def Input.timeout? : Input → Option Timeout
  | .statusWindowClosed check => some (.statusWindow check)
  | .requestTimedOut peer id => some (.request peer id)
  | .commitOverdue version => some (.commit version)
  | _ => none

theorem Input.timeout?_eq_some_iff {input : Input} {timeout : Timeout} :
    input.timeout? = some timeout ↔ input = timeout.input := by
  cases input <;> cases timeout <;> simp [timeout?, Timeout.input]

namespace Output

def isRequest : Output → Bool
  | .sendSyncRequest .. => true
  | _ => false

/-- Every status check opens one window. -/
def opensWindow : Output → Bool
  | .schedule (.statusWindow _) _ => true
  | _ => false

def timeout? : Output → Option Timeout
  | .schedule timeout _ => some timeout
  | _ => none

def asked? : Output → Option PeerId
  | .sendStatusRequest peer => some peer
  | _ => none

end Output

namespace Synchronizer

structure Record (σ : Type) where
  directory : Directory
  store : σ
  input : Input
  reaction : Reaction
  after : σ

/-- The steps of a run, the last one first. -/
abbrev History (σ : Type) := List (Record σ)

variable {σ : Type}

inductive Run (settings : Settings) (head : Header) (judge : Judge σ) :
    History σ → Synchronizer → Prop where
  | start : Run settings head judge [] (.start settings head)
  | step {history : History σ} {before : Synchronizer} (record : Record σ) :
      Run settings head judge history before →
      before.handle judge record.directory record.store record.input =
        .ok (record.reaction, record.after) →
      Run settings head judge (record :: history) record.reaction.synchronizer

/-- What holds at the start and is kept by every transition holds all along. -/
@[elab_as_elim] theorem Run.keeps {settings : Settings} {head : Header} {judge : Judge σ}
    {holds : History σ → Synchronizer → Prop} (start : holds [] (.start settings head))
    (step : ∀ (history : History σ) (before : Synchronizer) (record : Record σ) (bare : Reaction),
      Run settings head judge history before → holds history before →
      Transition judge record.directory record.store before record.input bare record.after →
      record.reaction = bare.withVersions → holds (record :: history) bare.synchronizer)
    {history : History σ} {synchronizer : Synchronizer}
    (run : Run settings head judge history synchronizer) : holds history synchronizer := by
  induction run with
  | start => exact start
  | step record earlier done ih =>
    obtain ⟨bare, transition, same⟩ := transition_of_handle done
    -- The closing count of versions leaves the synchronizer of the bare reaction as it is.
    have kept := step _ _ record bare earlier ih transition same
    rw [same]
    exact kept

/-- A part of a run in which the phase stays of one kind and nobody makes a local request. -/
inductive Episode (judge : Judge σ) (first : Synchronizer) : History σ → Synchronizer → Prop where
  | here : Episode judge first [] first
  | step {since : History σ} {before : Synchronizer} (record : Record σ) :
      Episode judge first since before →
      before.handle judge record.directory record.store record.input =
        .ok (record.reaction, record.after) →
      (∀ target peers, record.input ≠ .localRequest target peers) →
      record.reaction.synchronizer.phase.kind = first.phase.kind →
      Episode judge first (record :: since) record.reaction.synchronizer

@[elab_as_elim] theorem Episode.keeps {judge : Judge σ} {first : Synchronizer}
    {holds : History σ → Synchronizer → Prop} (start : holds [] first)
    (step : ∀ (since : History σ) (before : Synchronizer) (record : Record σ) (bare : Reaction),
      Episode judge first since before → holds since before →
      Transition judge record.directory record.store before record.input bare record.after →
      record.reaction = bare.withVersions →
      (∀ target peers, record.input ≠ .localRequest target peers) →
      bare.synchronizer.phase.kind = first.phase.kind → holds (record :: since) bare.synchronizer)
    {since : History σ} {last : Synchronizer} (episode : Episode judge first since last) :
    holds since last := by
  induction episode with
  | here => exact start
  | step record earlier done own same ih =>
    obtain ⟨bare, transition, reacted⟩ := transition_of_handle done
    rw [reacted] at same ⊢
    exact step _ _ record bare earlier ih transition reacted own same

theorem Episode.kind {judge : Judge σ} {first last : Synchronizer} {since : History σ}
    (episode : Episode judge first since last) : last.phase.kind = first.phase.kind := by
  cases episode with
  | here => rfl
  | step record earlier done own same => exact same

theorem Episode.run {settings : Settings} {head : Header} {judge : Judge σ}
    {history since : History σ} {first last : Synchronizer}
    (episode : Episode judge first since last) (run : Run settings head judge history first) :
    Run settings head judge (since ++ history) last := by
  induction episode with
  | here => exact run
  | step record earlier done own same ih => exact ih.step record done

/-- Take inputs one after another, and hand the store of each step on to the next. -/
def replay (judge : Judge σ) : List (Directory × Input) → History σ × σ × Synchronizer →
    Except Fault (History σ × σ × Synchronizer)
  | [], reached => .ok reached
  | (directory, input) :: rest, (history, store, before) => do
    let (reaction, after) ← before.handle judge directory store input
    replay judge rest
      (⟨directory, store, input, reaction, after⟩ :: history, after, reaction.synchronizer)

/-- What is replayed after a run is told apart from the run itself. -/
theorem Run.replay_after {settings : Settings} {head : Header} {judge : Judge σ}
    {history since reached : History σ} {after : σ} {before synchronizer : Synchronizer}
    (run : Run settings head judge (since ++ history) before) (steps : List (Directory × Input))
    (store : σ)
    (done : replay judge steps (since, store, before) = .ok (reached, after, synchronizer)) :
    Run settings head judge (reached ++ history) synchronizer := by
  induction steps generalizing since store before with
  | nil => cases done; exact run
  | cons step rest ih =>
    obtain ⟨directory, input⟩ := step
    obtain ⟨⟨reaction, stored⟩, taken, later⟩ := exists_of_bind_eq_ok done
    -- The rest is replayed on the run that this step has made longer.
    exact ih (run.step ⟨directory, store, input, reaction, stored⟩ taken) stored later

theorem Run.replay {settings : Settings} {head : Header} {judge : Judge σ}
    {history reached : History σ} {after : σ} {before synchronizer : Synchronizer}
    (run : Run settings head judge history before) (steps : List (Directory × Input)) (store : σ)
    (done : replay judge steps (history, store, before) = .ok (reached, after, synchronizer)) :
    Run settings head judge reached synchronizer := by
  rw [← List.append_nil history] at run
  have whole := run.replay_after steps store done
  rwa [List.append_nil] at whole

theorem suffix_of_replay {judge : Judge σ} {since reached : History σ} {after : σ}
    {before last : Synchronizer} (steps : List (Directory × Input)) (store : σ)
    (done : replay judge steps (since, store, before) = .ok (reached, after, last)) :
    since <:+ reached := by
  induction steps generalizing since store before with
  | nil => cases done; exact List.suffix_rfl
  | cons step rest ih =>
    obtain ⟨directory, input⟩ := step
    obtain ⟨⟨reaction, stored⟩, taken, later⟩ := exists_of_bind_eq_ok done
    exact (List.suffix_cons _ since).trans (ih stored later)

theorem Episode.replay {judge : Judge σ} {first before last : Synchronizer}
    {since reached : History σ} {after : σ} (episode : Episode judge first since before)
    (steps : List (Directory × Input)) (store : σ)
    (own : ∀ step ∈ steps, ∀ target peers, step.2 ≠ .localRequest target peers)
    (done : replay judge steps (since, store, before) = .ok (reached, after, last))
    (kinds : ∀ record ∈ reached,
      record.reaction.synchronizer.phase.kind = first.phase.kind) :
    Episode judge first reached last := by
  induction steps generalizing since store before with
  | nil => cases done; exact episode
  | cons step rest ih =>
    obtain ⟨directory, input⟩ := step
    obtain ⟨⟨reaction, stored⟩, taken, later⟩ := exists_of_bind_eq_ok done
    obtain ⟨here, own⟩ := List.forall_mem_cons.mp own
    have member := (suffix_of_replay rest stored later).subset List.mem_cons_self
    have longer := episode.step ⟨directory, store, input, reaction, stored⟩ taken here
      (kinds _ member)
    exact ih longer stored own later

/-- The timers that are left when an input has come in. -/
def remaining (timers : Multiset Timeout) (input : Input) : Multiset Timeout :=
  match input.timeout? with
  | some expired => timers.erase expired
  | none => timers

theorem mem_remaining {timers : Multiset Timeout} {timeout : Timeout} {input : Input}
    (set : timeout ∈ timers) (other : input ≠ timeout.input) :
    timeout ∈ remaining timers input := by
  unfold remaining
  split
  next expired reported =>
    rw [Multiset.mem_erase_of_ne]
    · exact set
    · rintro rfl
      exact other (Input.timeout?_eq_some_iff.mp reported)
  next => exact set

namespace History

/-- The state that a run or a part of it has led to from `first`. -/
def latest (first : Synchronizer) : History σ → Synchronizer
  | [] => first
  | record :: _ => record.reaction.synchronizer

def inputs (history : History σ) : List Input := history.map Record.input

def outputs (history : History σ) : List Output :=
  history.flatMap fun record => record.reaction.outputs

def requestsSent (history : History σ) : Nat := history.outputs.countP Output.isRequest

def checksStarted (history : History σ) : Nat := history.outputs.countP Output.opensWindow

/-- The peers that the last status check has asked. -/
def lastAsked : History σ → List PeerId
  | [] => []
  | record :: history =>
    match record.reaction.outputs.filterMap Output.asked? with
    | [] => lastAsked history
    | asked => asked

/-- The timers that are set: an expiry takes one away, then the outputs add theirs. An expiry that
was never set, late or made up, takes nothing away. -/
def outstanding : History σ → Multiset Timeout
  | [] => 0
  | record :: history => remaining (outstanding history) record.input +
      (record.reaction.outputs.filterMap Output.timeout? : List Timeout)

end History

/-! ## Counters -/

section
variable {judge : Judge σ} {directory : Directory} {store after : σ} {before : Synchronizer}
  {input : Input} {bare : Reaction}

theorem Pursues.nextRequest {pursuit : Pursuit} (pursues : Pursues directory before pursuit bare) :
    bare.synchronizer.nextRequest.number.toNat =
      before.nextRequest.number.toNat + bare.outputs.countP Output.isRequest := by
  cases pursues with
  | reached | waiting | exhausted => rfl
  | asked behind free found next => exact RequestId.next_eq_ok_iff.mp next

theorem Pursues.lastCheck {pursuit : Pursuit} (pursues : Pursues directory before pursuit bare) :
    bare.synchronizer.lastCheck = before.lastCheck ∧
      bare.outputs.countP Output.opensWindow = 0 := by
  cases pursues <;> exact ⟨rfl, rfl⟩

theorem Transition.nextRequest
    (transition : Transition judge directory store before input bare after) :
    bare.synchronizer.nextRequest.number.toNat =
      before.nextRequest.number.toNat + bare.outputs.countP Output.isRequest := by
  cases transition with
  | checkStarted phase window somebody number =>
    simp [Function.comp_def, Output.isRequest]
  | resumed resumes pursues => exact pursues.nextRequest
  | ignored | unasked | answered | checkClosed | unsolicited | malicious | accepted | adopted
  | satisfied => rfl

theorem Transition.lastCheck
    (transition : Transition judge directory store before input bare after) :
    bare.synchronizer.lastCheck.toNat =
      before.lastCheck.toNat + bare.outputs.countP Output.opensWindow := by
  cases transition with
  | checkStarted phase window somebody number =>
    simp [Function.comp_def, Output.opensWindow, increment_eq_ok_iff.mp number]
  | resumed resumes pursues =>
    obtain ⟨kept, none⟩ := pursues.lastCheck
    simp [kept, none]
  | ignored | unasked | answered | checkClosed | unsolicited | malicious | accepted | adopted
  | satisfied => rfl

end

section
variable {settings : Settings} {head : Header} {judge : Judge σ} {history : History σ}
  {synchronizer : Synchronizer}

theorem Run.latest (run : Run settings head judge history synchronizer) :
    history.latest (.start settings head) = synchronizer := by
  cases run <;> rfl

theorem Episode.latest {first last : Synchronizer} {since : History σ}
    (episode : Episode judge first since last) : since.latest first = last := by
  cases episode <;> rfl

theorem Run.nextRequest (run : Run settings head judge history synchronizer) :
    synchronizer.nextRequest.number.toNat = history.requestsSent + 1 := by
  refine run.keeps rfl fun history before record bare _ ih transition same => ?_
  have counted := transition.nextRequest
  have outputs : record.reaction.outputs = bare.outputs := same ▸ rfl
  simp only [History.requestsSent, History.outputs, List.flatMap_cons, List.countP_append,
    outputs] at ih ⊢
  omega

theorem Run.lastCheck (run : Run settings head judge history synchronizer) :
    synchronizer.lastCheck.toNat = history.checksStarted := by
  refine run.keeps rfl fun history before record bare _ ih transition same => ?_
  have counted := transition.lastCheck
  have outputs : record.reaction.outputs = bare.outputs := same ▸ rfl
  simp only [History.checksStarted, History.outputs, List.flatMap_cons, List.countP_append,
    outputs] at ih ⊢
  omega

end

end Synchronizer

end Catchup
