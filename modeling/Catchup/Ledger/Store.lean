import Catchup.Ledger.Extension

/-! The ledger of one node: what it has committed, and what it can serve from it.

Main operations: `append` for transactions produced here, `commit` for an extension received from a
peer, `extensionFrom` for serving. An extension is taken only if it starts at the very header of the
ledger, and served only to a requester whose accumulator lies on the history of the ledger. -/

set_option autoImplicit false

namespace Catchup

structure Ledger where
  header : Header
  transactions : List Transaction
  /-- The accumulator at each version, from version zero on. -/
  accumulators : List Digest
  /-- Headers committed from extensions and not taken yet, oldest first. -/
  unreported : List Header
  deriving DecidableEq, Repr

inductive Refusal where
  | startsElsewhere (start head : Version)
  | unparseableTransaction (index : Nat)
  | accumulatorMismatch (expected computed : Digest)
  deriving DecidableEq, Repr

def Refusal.message : Refusal → String
  | .startsElsewhere start head =>
    "extension starts at " ++ start.label ++ ", ledger head is at " ++ head.label
  | .unparseableTransaction index => "transaction " ++ toString index ++ " could not be parsed"
  | .accumulatorMismatch expected computed =>
    "transaction root mismatch: expected " ++ expected.toHex ++ ", computed " ++ computed.toHex

namespace Ledger

def empty : Ledger := ⟨.genesis, [], [.zero], []⟩

def version (ledger : Ledger) : Version := ledger.header.version

def lastAccumulator (ledger : Ledger) : Digest := ledger.accumulators.getLastD .zero

def accumulatorAt? (ledger : Ledger) (version : Version) : Option Digest :=
  ledger.accumulators[version.toNat]?

/-- Store a batch; the header stays. -/
def store (ledger : Ledger) (batch : List Transaction) : Ledger :=
  { ledger with
    transactions := ledger.transactions ++ batch
    accumulators := ledger.accumulators ++ ledger.lastAccumulator.totals batch }

@[simp] theorem store_nil (ledger : Ledger) : ledger.store [] = ledger := by
  simp [store, Digest.totals]

@[simp] theorem header_store (ledger : Ledger) (batch : List Transaction) :
    (ledger.store batch).header = ledger.header := rfl

@[simp] theorem transactions_store (ledger : Ledger) (batch : List Transaction) :
    (ledger.store batch).transactions = ledger.transactions ++ batch := rfl

@[simp] theorem lastAccumulator_store (ledger : Ledger) (batch : List Transaction) :
    (ledger.store batch).lastAccumulator = ledger.lastAccumulator.accumulateAll batch := by
  rw [← Digest.getLastD_totals]
  simp [store, lastAccumulator, List.getLastD_eq_getLast?]

/-- Append transactions produced here. The new header comes one millisecond after the old one; where
the clock has no such value, the batch is stored all the same and the header stays. -/
def append (ledger : Ledger) (batch : List Transaction) : Except Fault Header × Ledger :=
  let stored := ledger.store batch
  match increment ledger.header.timestamp with
  | .ok timestamp =>
    let header : Header :=
      { version := ledger.header.version.advance batch.length, epoch := ledger.header.epoch,
        timestamp, accumulator := stored.lastAccumulator }
    (.ok header, { stored with header })
  | .error fault => (.error fault, stored)

def commit (ledger : Ledger) (extension : Extension) : Except Refusal Ledger :=
  if extension.start ≠ ledger.header then
    .error (.startsElsewhere extension.start.version ledger.header.version)
  else match extension.transactions.findIdx? fun transaction => transaction.payload.isEmpty with
  | some index => .error (.unparseableTransaction index)
  | none =>
    let computed := extension.computedAccumulator
    if computed ≠ extension.finish.accumulator then
      .error (.accumulatorMismatch extension.finish.accumulator computed)
    else .ok { ledger.store extension.transactions with
      header := extension.finish
      unreported := ledger.unreported ++ [extension.finish] }

/-- Hand over the headers committed since the last time, oldest first. -/
def takeUnreported (ledger : Ledger) : List Header × Ledger :=
  (ledger.unreported, { ledger with unreported := [] })

/-- What follows the given header up to the head, for a requester on the same history. -/
def extensionFrom (ledger : Ledger) (start : Header) : Option Extension :=
  if ledger.header.version ≤ start.version then none
  else if ledger.accumulatorAt? start.version ≠ some start.accumulator then none
  else if ledger.transactions.length < ledger.header.version.toNat then none
  else some
    { start, finish := ledger.header
      transactions := (ledger.transactions.take ledger.header.version.toNat).drop
        start.version.toNat }

def generated (count : Nat) : Ledger :=
  (empty.append ((List.range count).map Transaction.generated)).2

end Ledger

end Catchup
