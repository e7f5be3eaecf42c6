import Catchup.Fault

/-! Names of peers, numbers of requests, and versions of a ledger. -/

set_option autoImplicit false

namespace Catchup

structure PeerId where
  number : UInt64
  deriving DecidableEq, Repr, Inhabited

namespace PeerId

instance : LT PeerId := ⟨fun left right => left.number < right.number⟩

instance (left right : PeerId) : Decidable (left < right) :=
  inferInstanceAs (Decidable (left.number < right.number))

theorem lt_iff {left right : PeerId} : left < right ↔ left.number.toNat < right.number.toNat :=
  UInt64.lt_iff_toNat_lt

theorem ext_number {left right : PeerId} (same : left.number.toNat = right.number.toNat) :
    left = right := by
  cases left; cases right
  exact congrArg PeerId.mk (UInt64.toNat_inj.mp same)

def label (peer : PeerId) : String := "peer-" ++ toString peer.number.toNat

end PeerId

/-- Requests are numbered upwards, so that an old timeout can be told from a live one. -/
structure RequestId where
  number : UInt64
  deriving DecidableEq, Repr, Inhabited

namespace RequestId

def next (id : RequestId) : Except Fault RequestId := RequestId.mk <$> increment id.number

theorem next_eq_ok_iff {id next : RequestId} :
    id.next = .ok next ↔ next.number.toNat = id.number.toNat + 1 := by
  rw [← increment_eq_ok_iff, RequestId.next]
  cases increment id.number with
  | error fault => simp [Functor.map, Except.map]
  | ok number =>
    cases next
    simp [Functor.map, Except.map]

theorem next_eq_error_iff {id : RequestId} {fault : Fault} :
    id.next = .error fault ↔
      fault = .additionOverflow ∧ id.number.toNat + 1 = UInt64.size := by
  rw [← increment_eq_error_iff, RequestId.next]
  cases increment id.number with
  | error cause => simp [Functor.map, Except.map]
  | ok number => simp [Functor.map, Except.map]

def label (id : RequestId) : String := "#" ++ toString id.number.toNat

end RequestId

/-- How many transactions a ledger has committed. -/
structure Version where
  number : UInt64
  deriving DecidableEq, Repr, Inhabited

namespace Version

def zero : Version := ⟨0⟩

def toNat (version : Version) : Nat := version.number.toNat

instance : LT Version := ⟨fun left right => left.number < right.number⟩

instance (left right : Version) : Decidable (left < right) :=
  inferInstanceAs (Decidable (left.number < right.number))

instance : LE Version := ⟨fun left right => left.number ≤ right.number⟩

instance (left right : Version) : Decidable (left ≤ right) :=
  inferInstanceAs (Decidable (left.number ≤ right.number))

theorem lt_iff {left right : Version} : left < right ↔ left.toNat < right.toNat :=
  UInt64.lt_iff_toNat_lt

theorem le_iff {left right : Version} : left ≤ right ↔ left.toNat ≤ right.toNat :=
  UInt64.le_iff_toNat_le

theorem le_refl (version : Version) : version ≤ version := le_iff.mpr (Nat.le_refl _)

theorem le_trans {first second third : Version} (below : first ≤ second) (above : second ≤ third) :
    first ≤ third := le_iff.mpr (Nat.le_trans (le_iff.mp below) (le_iff.mp above))

theorem le_of_lt {left right : Version} (below : left < right) : left ≤ right :=
  le_iff.mpr (Nat.le_of_lt (lt_iff.mp below))

theorem lt_of_le_of_lt {first second third : Version} (below : first ≤ second)
    (above : second < third) : first < third :=
  lt_iff.mpr (Nat.lt_of_le_of_lt (le_iff.mp below) (lt_iff.mp above))

theorem not_lt {left right : Version} : ¬ left < right ↔ right ≤ left := by
  rw [lt_iff, le_iff, Nat.not_lt]

theorem toNat_lt_size (version : Version) : version.toNat < UInt64.size :=
  version.number.toNat_lt

theorem toNat_inj {left right : Version} : left.toNat = right.toNat ↔ left = right := by
  cases left; cases right
  simp [toNat, UInt64.toNat_inj]

/-- The version after `count` more transactions; the largest one is never left. -/
def advance (version : Version) (count : Nat) : Version :=
  ⟨UInt64.ofNat (min (version.toNat + count) (UInt64.size - 1))⟩

theorem toNat_advance (version : Version) (count : Nat) :
    (version.advance count).toNat = min (version.toNat + count) (UInt64.size - 1) := by
  simp only [advance, toNat, UInt64.toNat_ofNat']
  exact Nat.mod_eq_of_lt (by simp only [UInt64.size]; omega)

/-- How far the first version is ahead of the second, zero if it is not. -/
def distance (version other : Version) : Nat := version.toNat - other.toNat

instance : Ord Version where
  compare left right := compare left.number right.number

def label (version : Version) : String := toString version.toNat

end Version

end Catchup
