import Catchup.Proofs.Ledger.Serving

/-! Appends that break off.

An append stores its batch before it advances the clock of the header. Where the clock has no next
value the header stays, and the batch is left over behind it. As long as the header stays, the
ledger serves and accepts what it did before; but the next batch that is committed is stored after
the one left over, and the header then counts as if that were not there. -/

set_option autoImplicit false

namespace Catchup.Ledger

variable {ledger after : Ledger} {batch : List Transaction} {extension : Extension}

/-- The ledgers that come about where an append may have broken off before. -/
inductive InUse : Ledger → Prop where
  | empty : InUse .empty
  | append {ledger : Ledger} (batch : List Transaction) :
      InUse ledger → InUse (ledger.append batch).2
  | judge {ledger after : Ledger} {proofs : Proofs} {pursuit : Pursuit} {peer : PeerId}
      {extension : Extension} {verdict : Verdict} : InUse ledger →
      Verification.judge proofs committer pursuit peer extension ledger = (verdict, after) →
      InUse after
  | takeUnreported {ledger : Ledger} : InUse ledger → InUse ledger.takeUnreported.2

theorem Built.inUse (built : ledger.Built) : ledger.InUse := by
  induction built with
  | empty => exact .empty
  | @append ledger after batch header _ appended ih =>
    have used := ih.append batch
    rwa [appended] at used
  | judge _ judged ih => exact ih.judge judged
  | takeUnreported _ ih => exact ih.takeUnreported

/-- Everything that the header counts is stored. -/
structure Covered (ledger : Ledger) : Prop where
  counted : ledger.version.toNat ≤ ledger.transactions.length
  accumulators : ledger.accumulators.length = ledger.transactions.length + 1

theorem append_eq_error_iff {fault : Fault} :
    ledger.append batch = (.error fault, after) ↔
      ledger.header.timestamp.toNat + 1 = UInt64.size ∧ fault = .additionOverflow ∧
        after = ledger.store batch := by
  unfold append
  cases advanced : increment ledger.header.timestamp with
  | error cause =>
    obtain ⟨rfl, last⟩ := increment_eq_error_iff.mp advanced
    simp [last, eq_comm]
  | ok timestamp =>
    have next := increment_eq_ok_iff.mp advanced
    have bound := timestamp.toNat_lt
    have inside : ledger.header.timestamp.toNat + 1 ≠ UInt64.size := by
      simp only [UInt64.size]
      omega
    simp [inside]

theorem append_fails_iff (ledger : Ledger) (batch : List Transaction) :
    (∃ fault after, ledger.append batch = (.error fault, after)) ↔
      ledger.header.timestamp.toNat + 1 = UInt64.size := by
  simp [append_eq_error_iff]

theorem fst_append_of_last (last : ledger.header.timestamp.toNat + 1 = UInt64.size)
    (batch : List Transaction) : (ledger.append batch).1 = .error .additionOverflow := by
  rw [append_eq_error_iff.mpr ⟨last, rfl, rfl⟩]

/-- A batch that is stored leaves a trace, unless it is empty. -/
theorem store_eq_self_iff : ledger.store batch = ledger ↔ batch = [] := by
  constructor
  · intro same
    have stored := congrArg Ledger.transactions same
    rwa [transactions_store, List.append_right_eq_self] at stored
  · rintro rfl
    exact store_nil ledger

theorem Covered.store (covered : ledger.Covered) (batch : List Transaction) :
    (ledger.store batch).Covered := by
  obtain ⟨counted, accumulators⟩ := covered
  constructor
  · rw [transactions_store, List.length_append]
    exact Nat.le_add_right_of_le counted
  · simp only [Ledger.store, List.length_append, Digest.length_totals]
    omega

theorem InUse.covered (used : ledger.InUse) : ledger.Covered := by
  induction used with
  | empty => exact ⟨Nat.le_refl _, rfl⟩
  | @append ledger batch _ ih =>
    have stored := ih.store batch
    rcases appended : ledger.append batch with ⟨⟨fault⟩ | ⟨header⟩, after⟩
    · obtain ⟨-, -, rfl⟩ := append_eq_error_iff.mp appended
      exact stored
    · obtain ⟨version, -, rfl⟩ := append_eq_ok appended
      refine ⟨?_, stored.accumulators⟩
      -- The version never runs ahead of the transactions: at the largest one it stands still.
      have counted := ih.counted
      show header.version.toNat ≤ (ledger.transactions ++ batch).length
      rw [version, Version.toNat_advance, List.length_append]
      omega
  | @judge ledger after proofs pursuit peer extension verdict _ judged ih =>
    have decides := Verification.decides_of_judge judged
    rcases decides.ledger with rfl | ⟨rfl, committed⟩
    · exact ih
    · obtain ⟨-, proven, -⟩ := decides.accepted
      obtain ⟨-, implied, -, -⟩ := Verification.checkProof_eq_ok_iff.mp proven
      obtain ⟨current, -, -, rfl⟩ := commit_eq_ok_iff.mp committed
      refine ⟨?_, (ih.store extension.transactions).accumulators⟩
      have counted : ledger.header.version.toNat ≤ ledger.transactions.length := ih.counted
      show extension.finish.version.toNat ≤ (ledger.transactions ++ extension.transactions).length
      rw [← implied, Extension.impliedVersion, current, Version.toNat_advance, List.length_append]
      omega
  | takeUnreported _ ih => exact ⟨ih.counted, ih.accumulators⟩

/-! ## While the header stays -/

theorem Covered.accumulatorAt?_store (covered : ledger.Covered) (batch : List Transaction)
    {version : Version} (behind : version < ledger.version) :
    (ledger.store batch).accumulatorAt? version = ledger.accumulatorAt? version := by
  have counted := covered.counted
  have accumulators := covered.accumulators
  have inside := Version.lt_iff.mp behind
  exact List.getElem?_append_left (by omega)

/-- What is stored behind the header is not served. -/
theorem Covered.extensionFrom_store (covered : ledger.Covered) (batch : List Transaction)
    (start : Header) : (ledger.store batch).extensionFrom start = ledger.extensionFrom start := by
  have counted : ledger.header.version.toNat ≤ ledger.transactions.length := covered.counted
  have more := (covered.store batch).counted
  by_cases reached : ledger.header.version ≤ start.version
  · rw [extensionFrom_of_reached reached, extensionFrom_of_reached (by exact reached)]
  · have shared := covered.accumulatorAt?_store batch (Version.lt_iff.mpr
      (Nat.lt_of_not_le (mt Version.le_iff.mpr reached)))
    simp only [extensionFrom, header_store, shared, reached, if_false, transactions_store,
      List.take_append_of_le_length counted, Nat.not_lt.mpr counted,
      Nat.not_lt.mpr (show ledger.header.version.toNat ≤
        (ledger.transactions ++ batch).length from more)]

/-- A refusal looks at the header and at the extension, and at nothing that is stored. -/
theorem commit_store_eq_error_iff {refusal : Refusal} :
    (ledger.store batch).commit extension = .error refusal ↔
      ledger.commit extension = .error refusal := by
  unfold commit
  rw [header_store]
  split
  · rfl
  · split
    · rfl
    · dsimp only
      split
      · rfl
      · exact ⟨nofun, nofun⟩

theorem store_store (ledger : Ledger) (first second : List Transaction) :
    (ledger.store first).store second = ledger.store (first ++ second) := by
  have sums : (ledger.store first).lastAccumulator.totals second =
      (ledger.lastAccumulator.accumulateAll first).totals second := by
    rw [lastAccumulator_store]
  rw [store, sums]
  simp only [store, Digest.totals_append, List.append_assoc]

/-- A batch that is committed is stored after the one left over. -/
theorem commit_store_of_commit (done : ledger.commit extension = .ok after) :
    (ledger.store batch).commit extension = .ok
      { ledger.store (batch ++ extension.transactions) with
        header := after.header, unreported := after.unreported } := by
  obtain ⟨current, parseable, matching, rfl⟩ := commit_eq_ok_iff.mp done
  refine commit_eq_ok_iff.mpr ⟨current, parseable, matching, ?_⟩
  rw [store_store]
  rfl

/-! ## When the header moves on -/

/-- The batch left over is served in the place of what the header stands for. -/
theorem Coherent.extensionFrom_leftover (coherent : ledger.Coherent) (reaches : extension.Reaches)
    (current : extension.start = ledger.header) (batch : List Transaction)
    (unreported : List Header) :
    Ledger.extensionFrom { ledger.store (batch ++ extension.transactions) with
        header := extension.finish, unreported } ledger.header =
      some { extension with
        transactions := (batch ++ extension.transactions).take extension.transactions.length } := by
  have counted : ledger.header.version.toNat = ledger.transactions.length := coherent.version
  have bridged := reaches.count
  have further := List.length_pos_iff.mpr reaches.nonempty
  rw [current] at bridged
  have behind : ¬ extension.finish.version ≤ ledger.header.version :=
    mt Version.le_iff.mp (by omega)
  have shared : (ledger.store (batch ++ extension.transactions)).accumulatorAt?
      ledger.header.version = some ledger.header.accumulator := by
    rw [Ledger.accumulatorAt?, coherent.accumulators_store, Digest.getElem?_totals,
      transactions_store, List.take_left' counted.symm, coherent.accumulator]
    exact if_pos (by simp [counted])
  have enough : ¬ (ledger.transactions ++ (batch ++ extension.transactions)).length <
      extension.finish.version.toNat := by
    simp only [List.length_append]
    omega
  have cut : ((ledger.transactions ++ (batch ++ extension.transactions)).take
      extension.finish.version.toNat).drop ledger.header.version.toNat =
        (batch ++ extension.transactions).take extension.transactions.length := by
    rw [List.drop_take, List.drop_left' counted.symm]
    congr 1
    omega
  refine (if_neg behind).trans ((if_neg fun other => other shared).trans ((if_neg enough).trans ?_))
  rw [← cut, ← current]
  rfl

/-- An append breaks off exactly where the clock of the header has no next value, and then its batch
is left over: the ledger has changed, unless the batch was empty. All else that the ledger does is
as if the append had not been called, until the header moves on by a commit. The batch is then
served in the place of what has been committed. -/
theorem InUse.leaves_batch (used : ledger.InUse) (batch : List Transaction) :
    ((∃ fault after, ledger.append batch = (.error fault, after)) ↔
      ledger.header.timestamp.toNat + 1 = UInt64.size) ∧
    ∀ fault after, ledger.append batch = (.error fault, after) →
      fault = .additionOverflow ∧
      after.header = ledger.header ∧ after.unreported = ledger.unreported ∧
      after.transactions = ledger.transactions ++ batch ∧
      after.accumulators = ledger.accumulators ++ ledger.lastAccumulator.totals batch ∧
      (after = ledger ↔ batch = []) ∧
      (∀ start, after.extensionFrom start = ledger.extensionFrom start) ∧
      (∀ more, (after.append more).1 = (ledger.append more).1) ∧
      ∀ extension,
        (∀ refusal, after.commit extension = .error refusal ↔
          ledger.commit extension = .error refusal) ∧
        ∀ spared, ledger.commit extension = .ok spared →
          ∃ committed, after.commit extension = .ok committed ∧
            committed.header = spared.header ∧ committed.unreported = spared.unreported ∧
            committed.transactions = ledger.transactions ++ (batch ++ extension.transactions) ∧
            (ledger.Coherent → extension.Reaches →
              spared.extensionFrom ledger.header = some extension ∧
              committed.extensionFrom ledger.header = some { extension with
                transactions :=
                  (batch ++ extension.transactions).take extension.transactions.length }) := by
  refine ⟨ledger.append_fails_iff batch, fun fault after broken => ?_⟩
  obtain ⟨last, rfl, rfl⟩ := append_eq_error_iff.mp broken
  refine ⟨rfl, rfl, rfl, rfl, rfl, store_eq_self_iff, used.covered.extensionFrom_store batch,
    fun more => ?_, fun extension => ⟨fun _ => commit_store_eq_error_iff, fun spared done => ?_⟩⟩
  · rw [fst_append_of_last last, fst_append_of_last (by exact last)]
  · refine ⟨_, commit_store_of_commit done, rfl, rfl, rfl, fun coherent reaches => ?_⟩
    have serves := coherent.serves_committed reaches.count reaches.nonempty done
    obtain ⟨current, -, -, rfl⟩ := commit_eq_ok_iff.mp done
    exact ⟨serves, coherent.extensionFrom_leftover reaches current batch _⟩

/-- A header that a peer has made up: there is no later millisecond. -/
def lastMillisecond : Header :=
  ⟨⟨1⟩, 0, 18446744073709551615, Digest.zero.accumulateAll [⟨[1]⟩]⟩

/-- After a first commit, up to that header. -/
def atLastMillisecond : Ledger :=
  { empty.store [⟨[1]⟩] with header := lastMillisecond, unreported := [lastMillisecond] }

theorem built_atLastMillisecond : atLastMillisecond.Built := by
  have reaches : Extension.Reaches ⟨.genesis, [⟨[1]⟩], lastMillisecond⟩ := ⟨by simp, rfl, rfl⟩
  have committed : empty.commit ⟨.genesis, [⟨[1]⟩], lastMillisecond⟩ = .ok atLastMillisecond :=
    commit_eq_ok_iff.mpr ⟨rfl, by simp, rfl, rfl⟩
  exact Built.empty.commit reaches committed

/-- What another peer sends next, with an earlier timestamp. -/
def followUp : Extension :=
  ⟨lastMillisecond, [⟨[3]⟩], ⟨⟨2⟩, 0, 5, lastMillisecond.accumulator.accumulateAll [⟨[3]⟩]⟩⟩

theorem reaches_followUp : followUp.Reaches := ⟨by simp [followUp], rfl, rfl⟩

theorem commit_followUp : ∃ committed, atLastMillisecond.commit followUp = .ok committed :=
  ⟨_, commit_eq_ok_iff.mpr ⟨rfl, by simp [followUp], rfl, rfl⟩⟩

/-- The second transaction is appended in vain and stays behind. Then the third is committed, and
the second is served for it. -/
theorem leaves_batch_at_last_millisecond :
    ∃ after committed : Ledger,
      atLastMillisecond.InUse ∧
      atLastMillisecond.append [⟨[2]⟩] = (.error .additionOverflow, after) ∧
      after.transactions = [⟨[1]⟩, ⟨[2]⟩] ∧ after.header = lastMillisecond ∧
      after.extensionFrom .genesis = atLastMillisecond.extensionFrom .genesis ∧
      after.commit followUp = .ok committed ∧ committed.header = followUp.finish ∧
      committed.transactions = [⟨[1]⟩, ⟨[2]⟩, ⟨[3]⟩] ∧
      committed.extensionFrom lastMillisecond =
        some { followUp with transactions := [⟨[2]⟩] } := by
  have used := built_atLastMillisecond.inUse
  obtain ⟨fails, broken⟩ := used.leaves_batch [⟨[2]⟩]
  obtain ⟨fault, after, appended⟩ := fails.mpr rfl
  obtain ⟨rfl, head, -, stored, -, -, serves, -, accepts⟩ := broken fault after appended
  obtain ⟨spared, done⟩ := commit_followUp
  obtain ⟨committed, taken, moved, -, whole, served⟩ := (accepts followUp).2 spared done
  obtain ⟨-, instead⟩ :=
    served (built_atLastMillisecond.coherent (by decide)) reaches_followUp
  obtain ⟨-, -, -, rfl⟩ := commit_eq_ok_iff.mp done
  exact ⟨after, committed, used, appended, stored, head, serves .genesis, taken, moved, whole,
    instead⟩

/-- An append is not all or nothing: where it fails, its batch stays in the ledger, and is served
later under a header that does not count it. -/
theorem batch_stays_after_failure :
    atLastMillisecond.Built ∧
    atLastMillisecond.append [⟨[2]⟩] =
      (.error .additionOverflow, atLastMillisecond.store [⟨[2]⟩]) ∧
    atLastMillisecond.store [⟨[2]⟩] ≠ atLastMillisecond ∧
    ∃ spared committed, atLastMillisecond.commit followUp = .ok spared ∧
      (atLastMillisecond.store [⟨[2]⟩]).commit followUp = .ok committed ∧
      spared.extensionFrom lastMillisecond = some followUp ∧
      committed.extensionFrom lastMillisecond ≠ some followUp := by
  have coherent := built_atLastMillisecond.coherent (by decide)
  obtain ⟨spared, done⟩ := commit_followUp
  have served := coherent.serves_committed reaches_followUp.count reaches_followUp.nonempty done
  have instead := coherent.extensionFrom_leftover reaches_followUp rfl [⟨[2]⟩] spared.unreported
  refine ⟨built_atLastMillisecond, append_eq_error_iff.mpr ⟨rfl, rfl, rfl⟩,
    mt store_eq_self_iff.mp (by simp), spared, _, done, commit_store_of_commit done, served, ?_⟩
  obtain ⟨-, -, -, rfl⟩ := commit_eq_ok_iff.mp done
  intro same
  have wrong := instead.symm.trans same
  simp [followUp] at wrong

end Catchup.Ledger
