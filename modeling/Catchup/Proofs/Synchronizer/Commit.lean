import Catchup.Proofs.Ledger.Built
import Catchup.Proofs.Synchronizer.PeerControl

/-! A synchronizer and the ledger that its responses are committed to.

Between a commit and its report the two are out of step. Requests go out again then, responses are
repeated, and transactions may be produced here. All the same the ledger only grows, and no
extension is committed twice: a commit starts at the very header of the ledger, and the ledger never
comes back to that version. -/

set_option autoImplicit false

namespace Catchup.Synchronizer

/-- The ledger of a run now, and at its earlier moments, the last one first. Between two steps it may
take transactions produced here, and hand over its reports. -/
inductive Threads : History Ledger → Ledger → List Ledger → Prop where
  | start {ledger : Ledger} : ledger.Built → Threads [] ledger []
  | step {history : History Ledger} {ledgers : List Ledger} (record : Record Ledger) :
      Threads history record.store ledgers →
      Threads (record :: history) record.after (record.store :: ledgers)
  | append {history : History Ledger} {ledger after : Ledger} {ledgers : List Ledger}
      {batch : List Transaction} {header : Header} : Threads history ledger ledgers →
      ledger.append batch = (.ok header, after) → Threads history after (ledger :: ledgers)
  | takeUnreported {history : History Ledger} {ledger : Ledger} {ledgers : List Ledger} :
      Threads history ledger ledgers →
      Threads history ledger.takeUnreported.2 (ledger :: ledgers)

def Record.committed? (record : Record Ledger) : Option Extension :=
  match record.input with
  | .syncResponse _ extension => if record.after = record.store then none else some extension
  | _ => none

/-- The extensions that have changed the ledger, the last one first. -/
def History.committed (history : History Ledger) : List Extension :=
  history.filterMap Record.committed?

theorem History.committed_of_same {record : Record Ledger} (history : History Ledger)
    (same : record.after = record.store) :
    History.committed (record :: history) = history.committed := by
  refine List.filterMap_cons_none ?_
  unfold Record.committed?
  split
  · exact if_pos same
  · rfl

theorem History.committed_of_response {record : Record Ledger} (history : History Ledger)
    {peer : PeerId} {extension : Extension} (given : record.input = .syncResponse peer extension)
    (changed : record.after ≠ record.store) :
    History.committed (record :: history) = extension :: history.committed := by
  refine List.filterMap_cons_some ?_
  rw [Record.committed?, given]
  exact if_neg changed

/-- A step that changes the ledger: the peer that was asked has sent what continues it. -/
structure Commits (before : Synchronizer) (ledger : Ledger) (peer : PeerId) (extension : Extension)
    (reached : Synchronizer) (after : Ledger) : Prop where
  asked : ∃ id, before.phase.pending? = some ⟨peer, id⟩
  start : extension.start = ledger.header
  transactions : after.transactions = ledger.transactions ++ extension.transactions
  header : after.header = extension.finish
  version : ledger.version < after.version
  unreported : after.unreported = ledger.unreported ++ [extension.finish]
  freed : ∃ pursuit, before.phase = .syncing pursuit ∧
    reached = before.enter (.syncing { pursuit with pending := none })

/-! ## Steps -/

section
variable {proofs : Proofs} {directory : Directory} {ledger after : Ledger} {before : Synchronizer}
  {input : Input} {bare : Reaction}

/-- Either nothing is committed and nobody prioritized, or a response is accepted. -/
theorem Transition.commit_cases
    (transition : Transition (Verification.judge proofs Ledger.committer) directory ledger before
      input bare after) :
    (after = ledger ∧ ∀ peer, .prioritize peer ∉ bare.outputs) ∨
    ∃ pursuit peer extension, input = .syncResponse peer extension ∧
      before.phase = .syncing pursuit ∧
      Verification.judge proofs Ledger.committer pursuit peer extension ledger =
        (.accepted, after) ∧
      bare.synchronizer = before.enter (.syncing { pursuit with pending := none }) ∧
      bare.outputs = [.prioritize peer,
        .schedule (.commit before.head.version) before.settings.commitTimeout] := by
  have refused {pursuit : Pursuit} {peer : PeerId} {extension : Extension} {verdict : Verdict}
      (judged : Verification.judge proofs Ledger.committer pursuit peer extension ledger =
        (verdict, after)) (refusal : verdict ≠ .accepted) : after = ledger := by
    rcases (Verification.decides_of_judge judged).ledger with same | ⟨accepted, -⟩
    · exact same
    · exact absurd accepted refusal
  cases transition with
  | accepted phase judged =>
    refine .inr ⟨_, _, _, rfl, phase, judged, rfl, ?_⟩
    rw [Synchronizer.head, phase]
    rfl
  | unsolicited phase judged => exact .inl ⟨refused judged (by simp), by simp⟩
  | malicious phase judged =>
    refine .inl ⟨refused judged (by simp), fun peer member => ?_⟩
    cases List.mem_singleton.mp member
  | checkStarted phase window somebody number =>
    refine .inl ⟨rfl, fun peer member => ?_⟩
    simp at member
  | resumed resumes pursues =>
    refine .inl ⟨rfl, fun peer member => ?_⟩
    cases List.filterMap_eq_nil_iff.mp pursues.controls_no_one _ member
  | ignored | unasked | answered | checkClosed | adopted | satisfied =>
    refine .inl ⟨rfl, fun peer member => ?_⟩
    cases member

theorem Transition.precedes
    (transition : Transition (Verification.judge proofs Ledger.committer) directory ledger before
      input bare after) : ledger.Precedes after := by
  rcases transition.commit_cases with ⟨rfl, -⟩ | ⟨pursuit, peer, extension, -, -, judged, -⟩
  · exact Ledger.Precedes.refl after
  · exact Ledger.precedes_of_decides (Verification.decides_of_judge judged)

theorem commits_of_accepted {pursuit : Pursuit} {peer : PeerId} {extension : Extension}
    {reached : Synchronizer}
    (coherent : ledger.Coherent) (bounded : after.transactions.length < UInt64.size)
    (phase : before.phase = .syncing pursuit)
    (judged : Verification.judge proofs Ledger.committer pursuit peer extension ledger =
      (.accepted, after))
    (freed : reached = before.enter (.syncing { pursuit with pending := none })) :
    Commits before ledger peer extension reached after := by
  have decides := Verification.decides_of_judge judged
  have count := coherent.count_of_accepted decides bounded
  obtain ⟨solicited, proven, done⟩ := decides.accepted
  obtain ⟨⟨id, out⟩, -⟩ := Verification.checkSolicited_eq_ok_iff.mp solicited
  obtain ⟨nonempty, -, -, -⟩ := Verification.checkProof_eq_ok_iff.mp proven
  have committed := Verification.committer_eq_ok_iff.mp done
  have further := Ledger.version_lt_of_commit nonempty count committed
  obtain ⟨current, -, -, rfl⟩ := Ledger.commit_eq_ok_iff.mp committed
  exact ⟨⟨id, Phase.pending?_eq_some_iff.mpr ⟨pursuit, phase, out⟩⟩, current, rfl, rfl, further, rfl,
    pursuit, phase, freed⟩

theorem Commits.changes {peer : PeerId} {extension : Extension} {reached : Synchronizer}
    (commits : Commits before ledger peer extension reached after) : after ≠ ledger := by
  rintro rfl
  exact Nat.lt_irrefl _ (Version.lt_iff.mp commits.version)

end

/-! ## Runs -/

/-- What a run has left behind: every earlier ledger, and the start of every commit. -/
structure Accounts (history : History Ledger) (ledger : Ledger) (ledgers : List Ledger) :
    Prop where
  built : ledger.Built
  grown : (ledger :: ledgers).Pairwise fun later earlier => earlier.Precedes later
  passed : ∀ extension ∈ history.committed, extension.start.version < ledger.version
  ascending : history.committed.Pairwise fun later earlier =>
    earlier.start.version < later.start.version

section
variable {settings : Settings} {head : Header} {proofs : Proofs} {history : History Ledger}
  {synchronizer : Synchronizer} {ledger after : Ledger} {ledgers : List Ledger}

/-- As long as nothing is committed, the ledger may grow in any way. -/
theorem Accounts.grow (accounts : Accounts history ledger ledgers) (built : after.Built)
    (precedes : ledger.Precedes after) : Accounts history after (ledger :: ledgers) := by
  refine ⟨built, List.pairwise_cons.mpr ⟨?_, accounts.grown⟩, ?_, accounts.ascending⟩
  · intro earlier member
    rcases List.mem_cons.mp member with rfl | member
    · exact precedes
    · exact ((List.pairwise_cons.mp accounts.grown).1 earlier member).trans precedes
  · intro extension member
    have passed := Version.lt_iff.mp (accounts.passed extension member)
    exact Version.lt_iff.mpr (passed.trans_le (Version.le_iff.mp precedes.version))

theorem Accounts.commit (accounts : Accounts history ledger ledgers) (built : after.Built)
    (precedes : ledger.Precedes after) {record : Record Ledger} {extension : Extension}
    (committed : History.committed (record :: history) = extension :: history.committed)
    (current : extension.start = ledger.header) (further : ledger.version < after.version) :
    Accounts (record :: history) after (ledger :: ledgers) := by
  obtain ⟨-, grown, passed, -⟩ := accounts.grow built precedes
  have now : extension.start.version = ledger.version := congrArg Header.version current
  refine ⟨built, grown, ?_, ?_⟩
  · rw [committed]
    intro other member
    rcases List.mem_cons.mp member with rfl | member
    · exact now ▸ further
    · exact passed other member
  · rw [committed]
    -- Every earlier commit has started below the version that the ledger had just now.
    refine List.pairwise_cons.mpr ⟨fun other member => ?_, accounts.ascending⟩
    exact now ▸ accounts.passed other member

theorem Run.accounts
    (run : Run settings head (Verification.judge proofs Ledger.committer) history synchronizer)
    (threads : Threads history ledger ledgers)
    (bounded : ledger.transactions.length < UInt64.size) : Accounts history ledger ledgers := by
  induction threads generalizing synchronizer with
  | start built => exact ⟨built, List.pairwise_singleton .., nofun, List.Pairwise.nil⟩
  | append _ appended ih =>
    have precedes := Ledger.precedes_of_append appended
    have accounts := ih run (precedes.transactions.length_le.trans_lt bounded)
    exact accounts.grow (accounts.built.append appended) precedes
  | takeUnreported _ ih =>
    have accounts := ih run bounded
    exact accounts.grow accounts.built.takeUnreported (Ledger.precedes_takeUnreported _)
  | @step history ledgers record _ ih =>
    cases run with
    | step _ earlier done =>
      obtain ⟨bare, transition, -⟩ := transition_of_handle done
      have precedes := transition.precedes
      have accounts := ih earlier (precedes.transactions.length_le.trans_lt bounded)
      rcases transition.commit_cases with
        ⟨same, -⟩ | ⟨pursuit, peer, extension, given, phase, judged, freed, -⟩
      · have committed := history.committed_of_same same
        obtain ⟨built, grown, passed, ascending⟩ :=
          accounts.grow (same ▸ accounts.built) precedes
        exact ⟨built, grown, committed ▸ passed, committed ▸ ascending⟩
      · have coherent :=
          accounts.built.coherent (precedes.transactions.length_le.trans_lt bounded)
        have commits := commits_of_accepted coherent bounded phase judged freed
        have committed := history.committed_of_response given commits.changes
        exact accounts.commit (accounts.built.judge judged) precedes committed commits.start
          commits.version

/-- The ledger only grows, and no extension is committed twice. A step changes the ledger exactly
when it prioritizes the sender of a response and waits for the commit; the response then comes from
the peer that was asked, continues the ledger at its very header, and frees the request. -/
theorem Run.commits_once
    (run : Run settings head (Verification.judge proofs Ledger.committer) history synchronizer)
    (threads : Threads history ledger ledgers)
    (bounded : ledger.transactions.length < UInt64.size) :
    (ledger :: ledgers).Pairwise (fun later earlier =>
      earlier.transactions <+: later.transactions ∧ earlier.version ≤ later.version) ∧
    history.committed.Nodup ∧
    ∀ directory input reaction after,
      synchronizer.handle (Verification.judge proofs Ledger.committer) directory ledger input =
        .ok (reaction, after) →
      after.transactions.length < UInt64.size →
      (after ≠ ledger ↔ ∃ peer extension, input = .syncResponse peer extension ∧
        reaction.outputs = [.prioritize peer,
          .schedule (.commit synchronizer.head.version) synchronizer.settings.commitTimeout]) ∧
      ∀ peer extension, input = .syncResponse peer extension → after ≠ ledger →
        Commits synchronizer ledger peer extension reaction.synchronizer after ∧
          extension ∉ history.committed := by
  have accounts := run.accounts threads bounded
  refine ⟨accounts.grown.imp fun precedes => ⟨precedes.transactions, precedes.version⟩,
    accounts.ascending.imp fun before same => ?_, ?_⟩
  · subst same
    exact Nat.lt_irrefl _ (Version.lt_iff.mp before)
  intro directory input reaction after done room
  obtain ⟨bare, transition, rfl⟩ := transition_of_handle done
  rcases transition.commit_cases with
    ⟨same, nobody⟩ | ⟨pursuit, peer, extension, rfl, phase, judged, freed, outputs⟩
  · refine ⟨⟨fun changed => absurd same changed, ?_⟩, fun _ _ _ changed => absurd same changed⟩
    rintro ⟨peer, extension, -, outputs⟩
    exact absurd (outputs ▸ List.mem_cons_self) (nobody peer)
  · have commits := commits_of_accepted (accounts.built.coherent bounded) room phase judged freed
    refine ⟨⟨fun _ => ⟨peer, extension, rfl, outputs⟩, fun _ => commits.changes⟩, ?_⟩
    rintro _ _ ⟨⟩ -
    refine ⟨commits, fun member => ?_⟩
    -- An extension committed before starts below the ledger, this one at its head.
    have passed := accounts.passed extension member
    rw [commits.start] at passed
    exact Nat.lt_irrefl _ (Version.lt_iff.mp passed)

end

theorem Threads.replay {judge : Judge Ledger} {history reached : History Ledger}
    {ledger after : Ledger} {ledgers : List Ledger} {before synchronizer : Synchronizer}
    (threads : Threads history ledger ledgers) (steps : List (Directory × Input))
    (done : Synchronizer.replay judge steps (history, ledger, before) =
      .ok (reached, after, synchronizer)) : ∃ later, Threads reached after later := by
  induction steps generalizing history ledger ledgers before with
  | nil => cases done; exact ⟨ledgers, threads⟩
  | cons step rest ih =>
    obtain ⟨directory, input⟩ := step
    obtain ⟨⟨reaction, stored⟩, taken, later⟩ := exists_of_bind_eq_ok done
    exact ih (threads.step ⟨directory, ledger, input, reaction, stored⟩) later

/-- One transaction on top of an empty ledger. -/
def firstExtension : Extension :=
  ⟨.genesis, [⟨[7]⟩], ⟨⟨1⟩, 0, 0, Digest.zero.accumulateAll [⟨[7]⟩]⟩⟩

/-- Peer 4 answers with it, and when the report of the commit is late, peer 7 is asked anew. -/
def lateReport : List (Directory × Input) :=
  [(PeerSet.ofList [⟨4⟩, ⟨7⟩], .localRequest ⟨⟨3⟩, 0, 0, .zero⟩ [⟨4⟩, ⟨7⟩]),
    (PeerSet.ofList [⟨4⟩, ⟨7⟩], .syncResponse ⟨4⟩ firstExtension),
    (PeerSet.ofList [⟨4⟩, ⟨7⟩], .commitOverdue ⟨0⟩)]

/-- Whoever repeats the answer of peer 4 now, it is not committed a second time. -/
theorem commits_once_after_late_report :
    ∃ (history : History Ledger) (synchronizer : Synchronizer) (ledger : Ledger)
      (ledgers : List Ledger),
      Run {} .genesis (Verification.judge .trusting Ledger.committer) history synchronizer ∧
      Threads history ledger ledgers ∧ ledger.transactions = [⟨[7]⟩] ∧
      history.committed = [firstExtension] ∧
      synchronizer.phase.pending? = some ⟨⟨7⟩, ⟨2⟩⟩ ∧
      ∀ directory peer reaction after,
        synchronizer.handle (Verification.judge .trusting Ledger.committer) directory ledger
          (.syncResponse peer firstExtension) = .ok (reaction, after) →
        after.transactions.length < UInt64.size → after = ledger := by
  have evaluated : (replay (Verification.judge .trusting Ledger.committer) lateReport
      ([], .empty, .start {} .genesis)).toOption.map (fun reached =>
        (reached.1.committed, reached.2.1.transactions, reached.2.2.phase.pending?)) =
      some ([firstExtension], [⟨[7]⟩], some ⟨⟨7⟩, ⟨2⟩⟩) := by decide +kernel
  cases done : replay (Verification.judge .trusting Ledger.committer) lateReport
      ([], .empty, .start {} .genesis) with
  | error fault => simp [done, Except.toOption] at evaluated
  | ok reached =>
    obtain ⟨history, ledger, synchronizer⟩ := reached
    simp only [done, Except.toOption, Option.map_some, Option.some.injEq, Prod.mk.injEq]
      at evaluated
    obtain ⟨committed, transactions, pending⟩ := evaluated
    have run : Run {} .genesis (Verification.judge .trusting Ledger.committer) history
      synchronizer := Run.start.replay lateReport .empty done
    obtain ⟨ledgers, threads⟩ := (Threads.start .empty).replay lateReport done
    refine ⟨history, synchronizer, ledger, ledgers, run, threads, transactions, committed, pending,
      ?_⟩
    intro directory peer reaction after step room
    obtain ⟨-, -, next⟩ := run.commits_once threads (by rw [transactions]; decide)
    by_contra changed
    obtain ⟨-, fresh⟩ := (next _ _ _ _ step room).2 peer firstExtension rfl changed
    exact fresh (committed ▸ List.mem_singleton.mpr rfl)

end Catchup.Synchronizer
