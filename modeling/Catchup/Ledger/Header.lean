import Catchup.Digest.Basic
import Catchup.Identity

/-! Headers: checkpoints of a ledger. -/

set_option autoImplicit false

namespace Catchup

structure Header where
  version : Version
  epoch : UInt64
  /-- Milliseconds, as the proposer of the checkpoint reported them. -/
  timestamp : UInt64
  accumulator : Digest
  deriving DecidableEq, Repr

namespace Header

def genesis : Header := ⟨.zero, 0, 0, .zero⟩

/-- Only versions decide which of two headers is ahead. -/
def isAheadOf (header other : Header) : Bool := other.version < header.version

theorem isAheadOf_iff {header other : Header} :
    header.isAheadOf other = true ↔ other.version.toNat < header.version.toNat := by
  simp [isAheadOf, Version.lt_iff]

theorem isAheadOf_iff_lt {header other : Header} :
    header.isAheadOf other = true ↔ other.version < header.version := decide_eq_true_iff

theorem isAheadOf_eq_false_iff {header other : Header} :
    header.isAheadOf other = false ↔ header.version ≤ other.version := by
  rw [← Bool.not_eq_true, isAheadOf_iff_lt, Version.not_lt]

end Header

end Catchup
