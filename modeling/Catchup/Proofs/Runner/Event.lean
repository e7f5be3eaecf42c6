import Catchup.Proofs.Runner.Turn

/-! What becomes of an event.

A running node handles a piece of mail, or a check that is due, in a few turns and with nothing else
in between. The input of the event is taken once. What it has led to committing is reported once to
either side of the node, and a report leads to nothing more. -/

set_option autoImplicit false

namespace Catchup.Runner

open Synchronizer (History)

/-- Exactly so many turns lead from the first tasks to those that are left. Nothing changes between
them. -/
inductive Turns (first : List Task) (start : Runner) :
    Nat → History Ledger → List Responder.Request → List Task → Runner → Prop where
  | none : Turns first start 0 [] [] first start
  | next {turns : Nat} {records more : History Ledger} {served told : List Responder.Request}
      {task : Task} {new rest : List Task} {runner later : Runner} :
      Turns first start turns records served (task :: rest) runner →
      Turn runner task more told new later →
      Turns first start (turns + 1) (more ++ records) (told ++ served) (new ++ rest) later

/-- What the two sides of a node have been handed for an event, the last of it first: the input or
the request of the event itself, then the reports of what has been committed. -/
structure HandsOver (first : List Task) (records : History Ledger)
    (served : List Responder.Request) : Prop where
  inputs : records.inputs =
    records.committed.map (fun extension => .ledgerUpdate extension.finish) ++
      first.filterMap Task.input?
  requests : ∃ reports, served = reports ++ first.filterMap Task.request? ∧
    reports.map Responder.Request.reported? =
      records.committed.map fun extension => some extension.finish

/-- The turns that start with these tasks have this result. They come to an end, or to an input for
which a number is missing. -/
inductive Concludes (first : List Task) (start : Runner) : Except Fault Runner → Prop where
  | done {turns : Nat} {records : History Ledger} {served : List Responder.Request}
      {after : Runner} : Turns first start turns records served [] after → turns ≤ 5 →
      HandsOver first records served → Concludes first start (.ok after)
  | overflows {turns : Nat} {records : History Ledger} {served : List Responder.Request}
      {input : Input} {rest : List Task} {stuck : Runner} :
      Turns first start turns records served (.take input :: rest) stuck →
      stuck.absorb input = .error .additionOverflow →
      Synchronizer.Overflows stuck.node.directory stuck.node.synchronizer input
        .additionOverflow →
      Concludes first start (.error .additionOverflow)

section
variable {first rest : List Task} {start runner reached stuck : Runner} {turns : Nat}
  {records : History Ledger} {served : List Responder.Request} {input : Input} {mail : Mail}

theorem Turns.single {task : Task} {new : List Task}
    (turn : Turn runner task records served new reached) :
    Turns [task] runner 1 records served new reached := by
  have taken : Turns [task] runner 1 _ _ (new ++ []) reached := .next .none turn
  rwa [List.append_nil, List.append_nil, List.append_nil] at taken

theorem Turns.overflows {fault : Fault}
    (taken : Turns first start turns records served (.take input :: rest) stuck)
    (failed : stuck.absorb input = .error fault) : Concludes first start (.error fault) := by
  rcases exists_turn stuck (.take input) with ⟨_, _, _, _, turn⟩ | ⟨_, same, overflow, overflows⟩
  · cases turn with
    | took _ absorbed => cases failed.symm.trans absorbed
  · cases same
    cases failed.symm.trans overflow
    exact .overflows taken failed overflows

/-- What an input has committed is what its record says. -/
theorem committed_of_absorb {committed : List Header}
    (silent : runner.node.ledger.unreported = [])
    (absorbed : runner.absorb input = .ok (committed, reached)) :
    ∃ reaction stored, Turn runner (.take input) [runner.taken input reaction stored] []
        (committed.flatMap report ++ [.publish]) reached ∧
      (committed = [] ∧ History.committed [runner.taken input reaction stored] = [] ∨
        ∃ extension, committed = [extension.finish] ∧
          History.committed [runner.taken input reaction stored] = [extension]) := by
  obtain ⟨reaction, stored, done, turn⟩ := exists_took absorbed
  obtain ⟨rfl, -⟩ := keeps_of_absorb done absorbed
  refine ⟨reaction, stored, turn, ?_⟩
  rcases stored_cases silent done with same | ⟨peer, extension, rfl, unreported⟩
  · exact .inl ⟨same ▸ silent, History.committed_of_same [] same⟩
  · have changed : stored ≠ runner.node.ledger := by
      rintro rfl
      cases unreported.symm.trans silent
    exact .inr ⟨extension, unreported, History.committed_of_response [] rfl changed⟩

theorem handsOver_of_nothing {record : Synchronizer.Record Ledger} (given : record.input = input)
    (nothing : History.committed [record] = []) : HandsOver [.take input] [record] [] := by
  constructor
  case inputs =>
    rw [nothing, ← given]
    rfl
  case requests =>
    rw [nothing]
    exact ⟨[], rfl, rfl⟩

theorem handsOver_of_commit {record report : Synchronizer.Record Ledger} {extension : Extension}
    {request : Responder.Request} (given : record.input = input)
    (committed : History.committed [record] = [extension])
    (told : report.input = .ledgerUpdate extension.finish)
    (announced : request.reported? = some extension.finish) :
    HandsOver [.take input] [report, record] [request] := by
  have once : History.committed [report, record] = [extension] := by
    refine (List.filterMap_cons_none ?_).trans committed
    rw [Synchronizer.Record.committed?, told]
  constructor
  case inputs =>
    rw [once, ← given, History.inputs, List.map_cons, told]
    rfl
  case requests =>
    rw [once]
    exact ⟨[request], rfl, congrArg ([·]) announced⟩

theorem step_of_nothing (absorbed : runner.absorb input = .ok ([], reached)) :
    (runner.step input).map Drained.toRunner = .ok reached.publish := by
  rw [step_of_absorb absorbed, adoptAll]
  rfl

theorem step_of_commit {header : Header} {more : List Header} {told : Runner}
    (absorbed : runner.absorb input = .ok ([header], reached))
    (reported : reached.absorb (.ledgerUpdate header) = .ok (more, told)) :
    more = [] ∧ (runner.step input).map Drained.toRunner =
      .ok (told.publish.serve (.ledgerUpdate header told.node.phaseKind told.limiterClock)).publish
      := by
  -- The report leads to nothing more, since the ledger has handed over all it had.
  obtain rfl := (committed_of_report reported).trans (unreported_of_absorb absorbed)
  rw [step_of_absorb absorbed, adoptAll_singleton, adopt, step_of_absorb reported, adoptAll]
  exact ⟨rfl, rfl⟩

/-- An input is taken in two turns if nothing is committed, and in five with the report of what
is. -/
theorem concludes_step (runner : Runner) (silent : runner.node.ledger.unreported = [])
    (input : Input) :
    Concludes [.take input] runner ((runner.step input).map Drained.toRunner) := by
  cases absorbed : runner.absorb input with
  | error fault =>
    rw [step_of_error absorbed]
    exact Turns.none.overflows absorbed
  | ok result =>
    obtain ⟨committed, reached⟩ := result
    obtain ⟨reaction, stored, turn, outcome⟩ := committed_of_absorb silent absorbed
    have taken := Turns.single turn
    rcases outcome with ⟨rfl, nothing⟩ | ⟨extension, rfl, once⟩
    case inl =>
      rw [step_of_nothing absorbed]
      exact .done (taken.next .published) (by decide) (handsOver_of_nothing rfl nothing)
    case inr =>
      cases again : reached.absorb (.ledgerUpdate extension.finish) with
      | error fault =>
        rw [step_of_absorb absorbed, adoptAll_singleton, adopt, step_of_error again]
        exact taken.overflows again
      | ok result =>
        obtain ⟨more, told⟩ := result
        obtain ⟨rfl, stepped⟩ := step_of_commit absorbed again
        obtain ⟨heard, kept, report, -⟩ := committed_of_absorb (unreported_of_absorb absorbed) again
        rw [stepped]
        have reported := (taken.next report).next .published
        exact .done ((reported.next (.announced rfl)).next .published) (by decide)
          (handsOver_of_commit rfl once rfl rfl)

/-- A request is served in one turn. -/
theorem concludes_serve (runner : Runner) (request : Responder.Request) :
    Concludes [.serve request] runner (.ok (runner.serve request)) :=
  .done (.single .served) (by decide) ⟨rfl, [], rfl, rfl⟩

/-- To handle a piece of mail is to take the turns of its tasks. -/
theorem concludes_handle (silent : runner.node.ledger.unreported = [])
    (other : ∀ header, mail ≠ .ledgerUpdate header) :
    Concludes (tasks mail) (runner.receive mail) (runner.handle mail) := by
  cases mail with
  | message peer message =>
    cases message with
    | statusRequest | syncRequest => exact concludes_serve ..
    | statusResponse | syncResponse | statusUpdate => exact concludes_step runner silent _
  | timeout timeout => exact concludes_step (runner.receive (.timeout timeout)) silent _
  | ledgerUpdate header => exact absurd rfl (other header)
  | localRequest target peers => exact concludes_step runner silent _

end

end Catchup.Runner
