/-! What a step can break off with: a counter that would leave its word, bookkeeping of the
outstanding request that contradicts itself, a node that does not exist, an instant with events
without end, a mailbox of a size that cannot be, or status checks with no time between them. -/

set_option autoImplicit false

namespace Catchup

inductive Fault where
  | additionOverflow
  | requestAlreadyPending
  | noRequestPending
  | unknownNode
  | endlessInstant
  | mailboxTooSmall
  | mailboxTooLarge
  | noCheckInterval
  deriving DecidableEq, Repr

def Fault.message : Fault → String
  | .additionOverflow => "attempt to add with overflow"
  | .requestAlreadyPending => "a sync request is already pending"
  | .noRequestPending => "no sync request pending to clear"
  | .unknownNode => "no entry found for key"
  | .endlessInstant => "the events of one instant do not end"
  | .mailboxTooSmall => "mpsc bounded channel requires buffer > 0"
  | .mailboxTooLarge =>
    "a semaphore may not have more than MAX_PERMITS permits (2305843009213693951)"
  | .noCheckInterval => "there is no time between two status checks"

theorem exists_of_bind_eq_ok {α β : Type} {first : Except Fault α} {next : α → Except Fault β}
    {result : β} (done : (first >>= next) = .ok result) :
    ∃ middle, first = .ok middle ∧ next middle = .ok result := by
  cases first with
  | error fault => cases done
  | ok middle => exact ⟨middle, rfl, done⟩

theorem exists_of_map_eq_ok {α β : Type} {first : Except Fault α} {next : α → β} {result : β}
    (done : first.map next = .ok result) : ∃ middle, first = .ok middle ∧ next middle = result := by
  cases first with
  | error fault => cases done
  | ok middle => exact ⟨middle, rfl, Except.ok.inj done⟩

/-- The next value of a counter that must not wrap. -/
def increment (word : UInt64) : Except Fault UInt64 :=
  if word.toNat + 1 < UInt64.size then .ok (word + 1) else .error .additionOverflow

theorem increment_eq_ok_iff {word next : UInt64} :
    increment word = .ok next ↔ next.toNat = word.toNat + 1 := by
  have bound := next.toNat_lt
  unfold increment
  split
  next room =>
    have value : (word + 1).toNat = word.toNat + 1 := by
      rw [UInt64.toNat_add]; exact Nat.mod_eq_of_lt room
    constructor
    · rintro ⟨⟩; exact value
    · intro same; exact congrArg _ (UInt64.toNat_inj.mp (value.trans same.symm))
  next full =>
    constructor
    · rintro ⟨⟩
    · intro same; simp only [UInt64.size] at full; omega

theorem increment_eq_error_iff {word : UInt64} {fault : Fault} :
    increment word = .error fault ↔ fault = .additionOverflow ∧ word.toNat + 1 = UInt64.size := by
  have bound := word.toNat_lt
  unfold increment
  split
  next room =>
    constructor
    · rintro ⟨⟩
    · rintro ⟨-, full⟩; omega
  next full =>
    constructor
    · rintro ⟨⟩; exact ⟨rfl, by simp only [UInt64.size] at full ⊢; omega⟩
    · rintro ⟨rfl, -⟩; rfl

end Catchup
