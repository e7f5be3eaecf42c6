import Catchup.Ledger.Header

/-! Extensions: the transactions that lead from one header to another. -/

set_option autoImplicit false

namespace Catchup

structure Transaction where
  payload : List UInt8
  deriving DecidableEq, Repr

namespace Transaction

def digest (transaction : Transaction) : Digest := .ofBytes transaction.payload

/-- The payload `tx-N` of the shared generated history. -/
def generated (number : Nat) : Transaction :=
  ⟨("tx-" ++ toString number).toUTF8.toList⟩

end Transaction

namespace Digest

def accumulateAll (accumulator : Digest) (transactions : List Transaction) : Digest :=
  transactions.foldl (fun total transaction => total.accumulate transaction.digest) accumulator

@[simp] theorem accumulateAll_nil (accumulator : Digest) :
    accumulator.accumulateAll [] = accumulator := rfl

@[simp] theorem accumulateAll_cons (accumulator : Digest) (first : Transaction)
    (rest : List Transaction) : accumulator.accumulateAll (first :: rest) =
      (accumulator.accumulate first.digest).accumulateAll rest := by
  simp only [accumulateAll, List.foldl_cons]

theorem accumulateAll_append (accumulator : Digest) (first second : List Transaction) :
    accumulator.accumulateAll (first ++ second) =
      (accumulator.accumulateAll first).accumulateAll second :=
  List.foldl_append ..

/-- The accumulator after each transaction of a batch. -/
def totals (accumulator : Digest) : List Transaction → List Digest
  | [] => []
  | first :: rest =>
    accumulator.accumulate first.digest :: (accumulator.accumulate first.digest).totals rest

@[simp] theorem length_totals (accumulator : Digest) (transactions : List Transaction) :
    (accumulator.totals transactions).length = transactions.length := by
  induction transactions generalizing accumulator with
  | nil => rfl
  | cons first rest ih => simp [totals, ih]

theorem getLastD_totals (accumulator : Digest) (transactions : List Transaction) :
    (accumulator.totals transactions).getLastD accumulator =
      accumulator.accumulateAll transactions := by
  induction transactions generalizing accumulator with
  | nil => rfl
  | cons first rest ih => simp only [totals, List.getLastD_cons, ih, accumulateAll_cons]

end Digest

/-- A batch of transactions, the header it starts from and the header it claims to reach. -/
structure Extension where
  start : Header
  transactions : List Transaction
  finish : Header
  deriving DecidableEq, Repr

namespace Extension

/-- The version that `start` reaches by the transactions at hand. -/
def impliedVersion (extension : Extension) : Version :=
  extension.start.version.advance extension.transactions.length

def computedAccumulator (extension : Extension) : Digest :=
  extension.start.accumulator.accumulateAll extension.transactions

end Extension

end Catchup
