import Catchup.Proofs.Ledger.Binding
import Catchup.Proofs.Ledger.Serving

/-! What an accumulator says of a history.

Two histories of one length that add up to one accumulator are the same, or the hash fails in a way
that can be pointed at: at one place of the two, different strings were hashed to one digest. The
version of a ledger is the length of its history, so two ledgers that agree on version and
accumulator agree on everything they have stored. -/

set_option autoImplicit false

namespace Catchup

namespace Digest

/-- At one place of two histories that start from one accumulator, different strings have one hash:
the payloads there, or the 64 bytes of accumulator and digest that are hashed to add them. -/
inductive Clashes (start : Digest) (left right : List Transaction) : Prop where
  | payloads {position : Nat} {here there : Transaction} :
      left[position]? = some here → right[position]? = some there →
      Blake3.Clash here.payload there.payload → Clashes start left right
  | totals {position : Nat} {here there : Transaction} :
      left[position]? = some here → right[position]? = some there →
      Blake3.Clash
        ((start.accumulateAll (left.take position)).toList ++ here.digest.toList)
        ((start.accumulateAll (right.take position)).toList ++ there.digest.toList) →
      Clashes start left right

/-- What two folds have hashed at one moment belongs to the transactions of one place. -/
theorem exists_of_mem_zip_hashed {left right : List Transaction} {first second : Digest}
    {strings : List UInt8 × List UInt8}
    (member : strings ∈ (first.hashed left).zip (second.hashed right)) :
    ∃ position here there, left[position]? = some here ∧ right[position]? = some there ∧
      (strings = (here.payload, there.payload) ∨
        strings = ((first.accumulateAll (left.take position)).toList ++ here.digest.toList,
          (second.accumulateAll (right.take position)).toList ++ there.digest.toList)) := by
  induction left generalizing right first second with
  | nil => simp [hashed] at member
  | cons here left ih =>
    cases right with
    | nil => simp [hashed] at member
    | cons there right =>
      simp only [hashed, List.zip_cons_cons, List.mem_cons] at member
      rcases member with payloads | totals | later
      · exact ⟨0, here, there, rfl, rfl, .inl payloads⟩
      · exact ⟨0, here, there, rfl, rfl, .inr totals⟩
      · obtain ⟨position, one, other, inLeft, inRight, found⟩ := ih later
        refine ⟨position + 1, one, other, inLeft, inRight, ?_⟩
        rw [List.take_succ_cons, List.take_succ_cons, accumulateAll_cons, accumulateAll_cons]
        exact found

theorem eq_or_clashes {left right : List Transaction} {start : Digest}
    (length : left.length = right.length)
    (same : start.accumulateAll left = start.accumulateAll right) :
    left = right ∨ Clashes start left right := by
  rcases accumulateAll_binds length same with ⟨-, equal⟩ | ⟨strings, member, clash⟩
  · exact .inl equal
  · obtain ⟨position, here, there, inLeft, inRight, rfl | rfl⟩ := exists_of_mem_zip_hashed member
    · exact .inr (.payloads inLeft inRight clash)
    · exact .inr (.totals inLeft inRight clash)

end Digest

namespace Ledger

variable {left right : Ledger}

theorem Coherent.eq_or_clashes (coherent : left.Coherent) (other : right.Coherent)
    (version : left.version = right.version)
    (accumulator : left.header.accumulator = right.header.accumulator) :
    (left.transactions = right.transactions ∧ left.accumulators = right.accumulators) ∨
      Digest.zero.Clashes left.transactions right.transactions := by
  have length : left.transactions.length = right.transactions.length := by
    rw [← coherent.version, ← other.version, version]
  rw [coherent.accumulator, other.accumulator] at accumulator
  rcases Digest.eq_or_clashes length accumulator with same | clashes
  · left
    refine ⟨same, ?_⟩
    rw [coherent.accumulators, other.accumulators, same]
  · exact .inr clashes

/-- The accumulator binds the history. Two batches of one length that add up from one accumulator to
one accumulator are the same batch; two ledgers that have come about in any way and agree on version
and accumulator hold the same transactions, and the same accumulator at every version. The only
alternative is a clash of hashes among what has been hashed on the way. -/
theorem binds_history :
    (∀ left right : Extension, left.start.accumulator = right.start.accumulator →
      left.transactions.length = right.transactions.length →
      left.computedAccumulator = right.computedAccumulator →
      left.transactions = right.transactions ∨
        left.start.accumulator.Clashes left.transactions right.transactions) ∧
    ∀ left right : Ledger, left.Built → left.transactions.length < UInt64.size →
      right.Built → right.transactions.length < UInt64.size →
      left.version = right.version → left.header.accumulator = right.header.accumulator →
      (left.transactions = right.transactions ∧ left.accumulators = right.accumulators) ∨
        Digest.zero.Clashes left.transactions right.transactions := by
  constructor
  · intro left right start length same
    rw [Extension.computedAccumulator, Extension.computedAccumulator, ← start] at same
    exact Digest.eq_or_clashes length same
  · intro left right built bounded other room version accumulator
    exact (built.coherent bounded).eq_or_clashes (other.coherent room) version accumulator

/-- Two transactions appended one by one, and the same two taken over from a peer that has appended
them together: the headers differ in their time, the history is one, and so are the batches that
lead to it. -/
theorem binds_history_however_built :
    ∃ (apart taken : Ledger) (first second : Extension), apart.Built ∧ taken.Built ∧
      apart.header.timestamp = 2 ∧ taken.header.timestamp = 1 ∧
      apart.header.accumulator = taken.header.accumulator ∧
      ((apart.transactions = taken.transactions ∧ apart.accumulators = taken.accumulators) ∨
        Digest.zero.Clashes apart.transactions taken.transactions) ∧
      first.finish = apart.header ∧ second.finish = taken.header ∧
      first.computedAccumulator = second.computedAccumulator ∧
      (first.transactions = second.transactions ∨
        first.start.accumulator.Clashes first.transactions second.transactions) := by
  have apart : (((empty.append [⟨[7]⟩]).2.append [⟨[8]⟩]).2).Built :=
    (Built.empty.append rfl).append rfl
  have peer : ((empty.append [⟨[7]⟩, ⟨[8]⟩]).2).Coherent :=
    (Built.empty.append rfl).coherent (by decide)
  have served : (empty.append [⟨[7]⟩, ⟨[8]⟩]).2.extensionFrom empty.header =
      some ⟨.genesis, [⟨[7]⟩, ⟨[8]⟩], (empty.append [⟨[7]⟩, ⟨[8]⟩]).2.header⟩ := rfl
  have committed := peer.commit_of_served served (by simp)
  have taken := Built.empty.commit (peer.reaches_of_extensionFrom served) committed
  have accumulator := (apart.coherent (by decide)).accumulator.trans
    (taken.coherent (by decide)).accumulator.symm
  obtain ⟨batches, ledgers⟩ := binds_history
  exact ⟨_, _, ⟨.genesis, [⟨[7]⟩, ⟨[8]⟩], _⟩, ⟨.genesis, [⟨[7]⟩, ⟨[8]⟩], _⟩, apart, taken,
    rfl, rfl, accumulator, ledgers _ _ apart (by decide) taken (by decide) rfl accumulator,
    rfl, rfl, rfl, batches _ _ rfl rfl rfl⟩

end Ledger

end Catchup
