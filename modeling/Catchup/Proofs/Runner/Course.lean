import Catchup.Proofs.Runner.Event
import Catchup.Proofs.Runner.Views

/-! The course of a running node.

An event comes to an end within five turns, and every header that the ledger has committed has been
reported to both sides of the node by then, once and in order. -/

set_option autoImplicit false

namespace Catchup.Runner

open Synchronizer (History)

/-- A running node from its start on: the inputs that the synchronizer has taken and the requests
that the responder has, the last ones first, how many turns the event at hand has taken so far, and
what is still to be done about it. -/
inductive Course (settings : Settings) (ledger : Ledger) (proofs : Proofs) :
    History Ledger → List Responder.Request → Nat → List Task → Runner → Prop where
  | start {directory unreachable : PeerSet} {capacity : Nat} :
      Course settings ledger proofs [] [] 0 []
        (.start settings ledger directory unreachable proofs capacity)
  /-- At any moment, the surroundings may change. -/
  | disturbed {history : History Ledger} {requests : List Responder.Request} {turns : Nat}
      {agenda : List Task} {runner later : Runner} :
      Course settings ledger proofs history requests turns agenda runner → runner.Keeps later →
      Course settings ledger proofs history requests turns agenda later
  | received {history : History Ledger} {requests : List Responder.Request} {turns : Nat}
      {runner : Runner} {mail : Mail} :
      Course settings ledger proofs history requests turns [] runner →
      (∀ header, mail ≠ .ledgerUpdate header) →
      Course settings ledger proofs history requests 0 (tasks mail) (runner.receive mail)
  | checkDue {history : History Ledger} {requests : List Responder.Request} {turns : Nat}
      {runner : Runner} :
      Course settings ledger proofs history requests turns [] runner →
      Course settings ledger proofs history requests 0 [.take .checkDue] runner
  | turned {history records : History Ledger} {requests served : List Responder.Request}
      {turns : Nat} {task : Task} {new rest : List Task} {runner later : Runner} :
      Course settings ledger proofs history requests turns (task :: rest) runner →
      Turn runner task records served new later →
      Course settings ledger proofs (records ++ history) (served ++ requests) (turns + 1)
        (new ++ rest) later

/-! ## Courses -/

section
variable {settings : Settings} {ledger : Ledger} {proofs : Proofs} {history : History Ledger}
  {requests : List Responder.Request} {turns : Nat} {agenda rest : List Task}
  {runner after : Runner} {mail : Mail}

theorem Course.silent
    (course : Course settings ledger proofs history requests turns agenda runner)
    (silent : ledger.unreported = []) : runner.node.ledger.unreported = [] := by
  induction course with
  | start => exact silent
  | disturbed _ keeps ih => exact keeps.ledger ▸ ih
  | received _ other ih => exact (congrArg Ledger.unreported (keeps_receive _ _).ledger).trans ih
  | checkDue _ ih => exact ih
  | turned _ turn ih => exact turn.silent ih

theorem Course.turns_le
    (course : Course settings ledger proofs history requests turns agenda runner)
    (silent : ledger.unreported = []) : turns + turnsLeft agenda ≤ 5 := by
  induction course with
  | start => exact Nat.zero_le 5
  | disturbed _ _ ih => exact ih
  | @received _ _ _ _ mail _ other ih =>
    rcases tasks_of_mail other with ⟨input, single, -⟩ | ⟨request, single, -⟩
    · rw [single]
      exact (Nat.zero_add _).trans_le (turns_le_five (.take input))
    · rw [single]
      exact (Nat.zero_add _).trans_le (turns_le_five (.serve request))
  | checkDue _ ih => exact Nat.le_refl 5
  | turned earlier turn ih =>
    have closer := turn.turns_lt (earlier.silent silent)
    rw [turnsLeft] at ih
    rw [turnsLeft_append]
    omega

theorem Course.inStep
    (course : Course settings ledger proofs history requests turns agenda runner)
    (built : ledger.Built) (silent : ledger.unreported = [])
    (bounded : runner.node.ledger.transactions.length < UInt64.size) :
    InStep history requests agenda runner := by
  induction course with
  | start => exact ⟨built, silent, rfl, rfl, rfl, rfl, .inr rfl, nofun⟩
  | disturbed _ keeps ih => exact keeps.inStep (ih (keeps.ledger ▸ bounded))
  | @received _ _ _ runner mail _ other ih =>
    have kept := keeps_receive runner mail
    have inStep := kept.inStep (ih (kept.ledger ▸ bounded))
    rcases tasks_of_mail other with ⟨input, single, quiet⟩ | ⟨request, single, quiet⟩
    · rw [single]
      exact inStep.enqueue quiet rfl
    · rw [single]
      exact inStep.enqueue rfl quiet
  | checkDue _ ih => exact (ih bounded).enqueue rfl rfl
  | turned _ turn ih =>
    have earlier := turn.precedes.transactions.length_le.trans_lt bounded
    exact turn.inStep (ih earlier) bounded

theorem Course.same_proofs
    (course : Course settings ledger proofs history requests turns agenda runner) :
    runner.proofs = proofs := by
  induction course with
  | start => rfl
  | disturbed _ keeps ih => exact keeps.proofs.trans ih
  | received _ other ih => exact (keeps_receive _ _).proofs.trans ih
  | checkDue _ ih => exact ih
  | turned _ turn ih => exact turn.same_proofs.trans ih

/-- The inputs that the synchronizer has taken make a run of it. -/
theorem Course.run
    (course : Course settings ledger proofs history requests turns agenda runner) :
    Synchronizer.Run settings ledger.header (Verification.judge proofs Ledger.committer) history
      runner.node.synchronizer := by
  induction course with
  | start => exact .start
  | disturbed _ keeps ih => exact keeps.synchronizer ▸ ih
  | @received _ _ _ runner mail _ other ih => exact (keeps_receive runner mail).synchronizer ▸ ih
  | checkDue _ ih => exact ih
  | turned earlier turn ih =>
    cases turn with
    | published => exact ih
    | announced told | served =>
      rw [(keeps_serve _ _).synchronizer]
      exact ih
    | took done absorbed =>
      obtain ⟨rfl, keeps⟩ := keeps_of_absorb done absorbed
      rw [keeps.synchronizer]
      exact ih.step _ (earlier.same_proofs ▸ done)

/-! ## Events -/

/-- An event with these tasks has this result: it takes its turns and nothing else happens in them,
and the course goes on with each of them. -/
structure Handled (settings : Settings) (ledger : Ledger) (proofs : Proofs)
    (history : History Ledger) (requests : List Responder.Request) (first : List Task)
    (start : Runner) (result : Except Fault Runner) : Prop where
  concludes : Concludes first start result
  course : ∀ turns records served rest later,
    Turns first start turns records served rest later →
    Course settings ledger proofs (records ++ history) (served ++ requests) turns rest later

theorem Course.append {start : Runner} {first : List Task} {records : History Ledger}
    {served : List Responder.Request} {more : Nat}
    (course : Course settings ledger proofs history requests turns first start)
    (taken : Turns first start more records served rest runner) :
    Course settings ledger proofs (records ++ history) (served ++ requests) (turns + more) rest
      runner := by
  induction taken with
  | none => exact course
  | next _ turn ih =>
    rw [List.append_assoc, List.append_assoc]
    exact ih.turned turn

theorem Course.handled {start : Runner} {first : List Task} {result : Except Fault Runner}
    (course : Course settings ledger proofs history requests 0 first start)
    (concludes : Concludes first start result) :
    Handled settings ledger proofs history requests first start result := by
  refine ⟨concludes, fun turns records served rest later taken => ?_⟩
  have further := course.append taken
  rwa [Nat.zero_add] at further

/-- No event takes more than five turns, and every turn can be taken as long as the numbers of
requests and checks suffice. When the event is done with, nothing is left to be reported: the
synchronizer and the responder stand at the head of the ledger, the status that is published is that
of the synchronizer, and either side has been told of every header committed so far, once and in
order. What the node makes of the next piece of mail, or of a check that is due, is exactly the
turns of its tasks. -/
theorem Course.views_in_step
    (course : Course settings ledger proofs history requests turns agenda runner)
    (built : ledger.Built) (silent : ledger.unreported = [])
    (bounded : runner.node.ledger.transactions.length < UInt64.size) :
    turns ≤ 5 ∧
    (∀ task rest, agenda = task :: rest →
      (∃ records served new later, Turn runner task records served new later) ∨
      UInt64.size < 2 * runner.node.directory.size ∨
      history.checksStarted + 1 = UInt64.size ∨ history.requestsSent + 2 = UInt64.size) ∧
    (agenda = [] →
      runner.node.ledger.unreported = [] ∧
      runner.node.synchronizer.head = runner.node.ledger.header ∧
      runner.node.responder.head = runner.node.ledger.header ∧
      runner.published = runner.node.synchronizer.status ∧
      history.inputs.filterMap Input.reported? = history.committed.map Extension.finish ∧
      requests.filterMap Responder.Request.reported? = history.committed.map Extension.finish ∧
      (∀ mail, (∀ header, mail ≠ .ledgerUpdate header) →
        Handled settings ledger proofs history requests (tasks mail) (runner.receive mail)
          (runner.handle mail)) ∧
      Handled settings ledger proofs history requests [.take .checkDue] runner
        ((runner.step .checkDue).map Drained.toRunner)) := by
  refine ⟨(Nat.le_add_right _ _).trans (course.turns_le silent), fun task rest _ => ?_, ?_⟩
  · rcases exists_turn runner task with turn | ⟨input, -, -, overflows⟩
    · exact .inl turn
    · have sent := course.run.nextRequest
      have started := course.run.lastCheck
      right
      rcases overflows.cause.2 with large | ⟨-, full⟩ | ⟨-, full⟩
      · exact .inl large
      · exact .inr (.inl (started ▸ full))
      · rw [sent] at full
        exact .inr (.inr full)
  · rintro rfl
    obtain ⟨-, empty, hears, serves, heard, announced, published, -⟩ :=
      course.inStep built silent bounded
    refine ⟨empty, hears, serves, published.resolve_left nofun, heard.symm, announced.symm,
      fun mail other => ?_, ?_⟩
    · exact (course.received other).handled (concludes_handle empty other)
    · exact course.checkDue.handled (concludes_step runner empty .checkDue)

end

/-- A node that has committed nothing, connected to peer 4. -/
def atGenesis : Runner := .start {} .empty (.ofList [⟨4⟩]) .empty .trusting 8

/-- The node is to reach version 3. -/
def requestMail : Mail := .localRequest ⟨⟨3⟩, 0, 0, .zero⟩ [⟨4⟩]

/-- Peer 4 sends the first transaction. -/
def responseMail : Mail := .message ⟨4⟩ (.syncResponse ⟨Synchronizer.firstExtension⟩)

/-- The transaction is committed. The synchronizer takes the two inputs and then one report of the
commit, and that report is all that the responder is handed. -/
theorem views_in_step_after_commit :
    ∃ (history : History Ledger) (requests : List Responder.Request) (turns : Nat)
      (runner : Runner), Course {} .empty .trusting history requests turns [] runner ∧
      [requestMail, responseMail].foldlM Runner.handle atGenesis = .ok runner ∧
      history.inputs = [.ledgerUpdate Synchronizer.firstExtension.finish,
        .syncResponse ⟨4⟩ Synchronizer.firstExtension,
        .localRequest ⟨⟨3⟩, 0, 0, .zero⟩ [⟨4⟩]] ∧
      requests = [.ledgerUpdate Synchronizer.firstExtension.finish .syncing 0] ∧
      history.committed.map Extension.finish = [Synchronizer.firstExtension.finish] ∧
      runner.node.ledger.transactions = [⟨[7]⟩] ∧ runner.node.ledger.header.version = ⟨1⟩ ∧
      runner.node.ledger.unreported = [] ∧
      runner.node.synchronizer.head = runner.node.ledger.header ∧
      runner.node.responder.head = runner.node.ledger.header ∧
      runner.published = runner.node.synchronizer.status := by
  have evaluated : (do
      let (nothing, first) ← atGenesis.absorb (.localRequest ⟨⟨3⟩, 0, 0, .zero⟩ [⟨4⟩])
      let (once, second) ← first.publish.absorb (.syncResponse ⟨4⟩ Synchronizer.firstExtension)
      let (_, third) ← second.absorb (.ledgerUpdate Synchronizer.firstExtension.finish)
      let request := Responder.Request.ledgerUpdate Synchronizer.firstExtension.finish
        third.node.phaseKind third.limiterClock
      return (nothing, once, request, third.node.ledger.transactions,
        third.node.ledger.header.version)) =
      .ok ([], [Synchronizer.firstExtension.finish],
        .ledgerUpdate Synchronizer.firstExtension.finish .syncing 0, [⟨[7]⟩], ⟨1⟩) := by
    decide +kernel
  obtain ⟨⟨nothing, first⟩, asking, evaluated⟩ := exists_of_bind_eq_ok evaluated
  obtain ⟨⟨once, second⟩, answering, evaluated⟩ := exists_of_bind_eq_ok evaluated
  obtain ⟨⟨more, third⟩, reporting, evaluated⟩ := exists_of_bind_eq_ok evaluated
  simp only [pure, Except.pure, Except.ok.injEq, Prod.mk.injEq] at evaluated
  obtain ⟨rfl, rfl, request, transactions, version⟩ := evaluated
  obtain ⟨_, _, -, asks⟩ := exists_took asking
  obtain ⟨_, _, -, answers⟩ := exists_took answering
  obtain ⟨_, _, -, reports⟩ := exists_took reporting
  obtain ⟨rfl, handled⟩ := step_of_commit answering reporting
  have start : Course {} .empty .trusting [] [] 0 [] atGenesis := .start
  have asked := ((start.received (nofun : ∀ header, requestMail ≠ .ledgerUpdate header)).turned
    asks).turned .published
  have answered := (asked.received (nofun : ∀ header, responseMail ≠ .ledgerUpdate header)).turned
    answers
  have course := (((answered.turned reports).turned .published).turned (.announced rfl)).turned
    .published
  have stored (request : Responder.Request) :
      (third.publish.serve request).publish.node.ledger = third.node.ledger := ledger_serve ..
  obtain ⟨-, -, settled⟩ := course.views_in_step .empty rfl (by rw [stored, transactions]; decide)
  obtain ⟨silent, hears, serves, published, heard, announced, -⟩ := settled rfl
  refine ⟨_, _, _, _, course, ?_, rfl, congrArg ([·]) request, heard.symm, ?_, ?_, silent, hears,
    serves, published⟩
  · show (atGenesis.step _).map Drained.toRunner >>= _ = _
    rw [step_of_nothing asking]
    exact congrArg (· >>= pure) handled
  · exact (congrArg Ledger.transactions (stored _)).trans transactions
  · exact (congrArg (·.header.version) (stored _)).trans version

end Catchup.Runner
