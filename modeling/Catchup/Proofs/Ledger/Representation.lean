import Catchup.Ledger.Store

/-! What a ledger stores is one history: its version counts the transactions, its accumulators are
the totals over them, and its header carries the last of these. -/

set_option autoImplicit false

namespace Catchup

namespace Digest

theorem totals_append (accumulator : Digest) (first second : List Transaction) :
    accumulator.totals (first ++ second) =
      accumulator.totals first ++ (accumulator.accumulateAll first).totals second := by
  induction first generalizing accumulator with
  | nil => rfl
  | cons transaction rest ih =>
    simp only [List.cons_append, totals, ih, accumulateAll_cons]

/-- The accumulator at a position is the total over the transactions before it. -/
theorem getElem?_totals (accumulator : Digest) (transactions : List Transaction) (position : Nat) :
    (accumulator :: accumulator.totals transactions)[position]? =
      if position ≤ transactions.length then
        some (accumulator.accumulateAll (transactions.take position))
      else none := by
  induction transactions generalizing accumulator position with
  | nil => cases position <;> simp [totals]
  | cons first rest ih =>
    cases position with
    | zero => simp
    | succ earlier =>
      rw [totals, List.getElem?_cons_succ, ih]
      simp [accumulateAll]

end Digest

namespace Ledger

structure Coherent (ledger : Ledger) : Prop where
  version : ledger.version.toNat = ledger.transactions.length
  accumulators : ledger.accumulators = .zero :: Digest.zero.totals ledger.transactions
  accumulator : ledger.header.accumulator = Digest.zero.accumulateAll ledger.transactions

/-- Every stored transaction has a payload. -/
def Parseable (ledger : Ledger) : Prop :=
  ∀ transaction ∈ ledger.transactions, transaction.payload ≠ []

theorem coherent_empty : empty.Coherent := ⟨rfl, rfl, rfl⟩

variable {ledger after : Ledger}

theorem Coherent.lastAccumulator (coherent : ledger.Coherent) :
    ledger.lastAccumulator = Digest.zero.accumulateAll ledger.transactions := by
  rw [Ledger.lastAccumulator, coherent.accumulators, List.getLastD_cons, Digest.getLastD_totals]

theorem Coherent.accumulators_store (coherent : ledger.Coherent) (batch : List Transaction) :
    (ledger.store batch).accumulators =
      .zero :: Digest.zero.totals (ledger.store batch).transactions := by
  rw [transactions_store, Digest.totals_append, ← coherent.lastAccumulator, ← List.cons_append,
    ← coherent.accumulators]
  rfl

theorem Coherent.accumulatorAt? (coherent : ledger.Coherent) (version : Version) :
    ledger.accumulatorAt? version =
      if version.toNat ≤ ledger.transactions.length then
        some (Digest.zero.accumulateAll (ledger.transactions.take version.toNat))
      else none := by
  rw [Ledger.accumulatorAt?, coherent.accumulators, Digest.getElem?_totals]

/-! ## Growing -/

theorem append_eq_ok {batch : List Transaction} {header : Header}
    (appended : ledger.append batch = (.ok header, after)) :
    header.version = ledger.version.advance batch.length ∧
      header.accumulator = ledger.lastAccumulator.accumulateAll batch ∧
      after = { ledger.store batch with header } := by
  unfold append at appended
  simp only at appended
  split at appended
  next timestamp _ =>
    cases appended
    exact ⟨rfl, lastAccumulator_store ledger batch, rfl⟩
  next => cases appended

theorem Coherent.append (coherent : ledger.Coherent) {batch : List Transaction} {header : Header}
    (room : ledger.version.toNat + batch.length < UInt64.size)
    (appended : ledger.append batch = (.ok header, after)) : after.Coherent := by
  obtain ⟨version, accumulator, rfl⟩ := append_eq_ok appended
  refine ⟨?_, coherent.accumulators_store batch, ?_⟩
  · have counted := coherent.version
    show header.version.toNat = (ledger.transactions ++ batch).length
    rw [version, Version.toNat_advance, List.length_append]
    omega
  · show header.accumulator = Digest.zero.accumulateAll (ledger.transactions ++ batch)
    rw [accumulator, coherent.lastAccumulator, Digest.accumulateAll_append]

theorem commit_eq_ok_iff {extension : Extension} :
    ledger.commit extension = .ok after ↔
      extension.start = ledger.header ∧
      (∀ transaction ∈ extension.transactions, transaction.payload ≠ []) ∧
      extension.computedAccumulator = extension.finish.accumulator ∧
      after = { ledger.store extension.transactions with
        header := extension.finish, unreported := ledger.unreported ++ [extension.finish] } := by
  unfold commit
  by_cases current : extension.start = ledger.header
  · simp only [current, ne_eq, not_true, if_false]
    split
    next index found =>
      -- A transaction without payload was found.
      obtain ⟨bound, empty, -⟩ := List.findIdx?_eq_some_iff_getElem.mp found
      constructor
      · nofun
      · rintro ⟨-, parseable, -⟩
        exact absurd (List.isEmpty_iff.mp empty) (parseable _ (List.getElem_mem bound))
    next complete =>
      have parseable : ∀ transaction ∈ extension.transactions, transaction.payload ≠ [] := by
        simpa using List.findIdx?_eq_none_iff.mp complete
      by_cases matching : extension.computedAccumulator = extension.finish.accumulator
      · simp only [matching, not_true, if_false, Except.ok.injEq, true_and]
        exact ⟨fun same => ⟨parseable, same.symm⟩, fun ⟨_, same⟩ => same.symm⟩
      · simp [matching]
  · simp [current]

theorem Coherent.commit (coherent : ledger.Coherent) {extension : Extension}
    (bridged : extension.start.version.toNat + extension.transactions.length =
      extension.finish.version.toNat)
    (committed : ledger.commit extension = .ok after) : after.Coherent := by
  obtain ⟨current, -, matching, rfl⟩ := commit_eq_ok_iff.mp committed
  refine ⟨?_, coherent.accumulators_store extension.transactions, ?_⟩
  · have counted := coherent.version
    rw [current] at bridged
    show extension.finish.version.toNat = (ledger.transactions ++ extension.transactions).length
    rw [List.length_append, ← bridged, ← counted]
    rfl
  · show extension.finish.accumulator =
      Digest.zero.accumulateAll (ledger.transactions ++ extension.transactions)
    -- The extension starts at the head, so its fold goes on where the ledger's fold has ended.
    rw [← matching, Extension.computedAccumulator, current, coherent.accumulator,
      Digest.accumulateAll_append]

theorem version_lt_of_commit {extension : Extension} (nonempty : extension.transactions ≠ [])
    (bridged : extension.start.version.toNat + extension.transactions.length =
      extension.finish.version.toNat)
    (committed : ledger.commit extension = .ok after) : ledger.version < after.version := by
  obtain ⟨current, -, -, rfl⟩ := commit_eq_ok_iff.mp committed
  have positive := List.length_pos_iff.mpr nonempty
  rw [current] at bridged
  apply Version.lt_iff.mpr
  show ledger.header.version.toNat < extension.finish.version.toNat
  omega

theorem Coherent.takeUnreported (coherent : ledger.Coherent) :
    ledger.takeUnreported.2.Coherent :=
  ⟨coherent.version, coherent.accumulators, coherent.accumulator⟩

/-! ## Serving -/

/-- Served is what follows a header on the own history, all the way to the head. -/
theorem Coherent.extensionFrom_eq_some_iff (coherent : ledger.Coherent) {start : Header}
    {extension : Extension} :
    ledger.extensionFrom start = some extension ↔
      start.version.toNat < ledger.version.toNat ∧
      start.accumulator =
        Digest.zero.accumulateAll (ledger.transactions.take start.version.toNat) ∧
      extension = ⟨start, ledger.transactions.drop start.version.toNat, ledger.header⟩ := by
  have counted : ledger.header.version.toNat = ledger.transactions.length := coherent.version
  simp only [Ledger.extensionFrom, Version.le_iff, coherent.accumulatorAt?, counted,
    Ledger.version, List.take_length, Nat.lt_irrefl, if_false]
  by_cases behind : start.version.toNat < ledger.transactions.length
  · have reached : start.version.toNat ≤ ledger.transactions.length := Nat.le_of_lt behind
    simp only [Nat.not_le.mpr behind, reached, behind, if_true, if_false, true_and, ne_eq,
      Option.some.injEq, ite_not]
    split
    next same => simp [same, eq_comm]
    next other => simp [Ne.symm other]
  · have none : ledger.transactions.length ≤ start.version.toNat := Nat.not_lt.mp behind
    simp only [none, behind, if_true, false_and, reduceCtorEq]

end Ledger

end Catchup
