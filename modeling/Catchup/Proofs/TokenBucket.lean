import Catchup.TokenBucket
import Mathlib.Algebra.Order.Field.Rat
import Mathlib.Algebra.BigOperators.Group.List.Basic
import Mathlib.Data.Nat.Cast.Order.Field
import Mathlib.Tactic.Ring
import Mathlib.Tactic.Linarith

/-! What a token bucket lets through, with amounts that are counted exactly.

Calls may come at any times, in any order. Whatever the clock does, each instant is credited once:
the bucket has been filled up to the latest time it has seen, and a call at an earlier time brings
nothing. So the tokens that have been taken, and those that are left, were there at the start or
have come in with the time since then. -/

set_option autoImplicit false

namespace Catchup.TokenBucket

/-- A call, and the bucket that it meets. -/
structure Call (α : Type) where
  bucket : TokenBucket α
  now : Nat

section
variable {α : Type} [Amount α]

namespace Call

def allowed (call : Call α) : Bool := (call.bucket.tryConsume call.now).1

/-- The nanoseconds that the bucket is filled for. -/
def elapsed (call : Call α) : Nat := call.now - call.bucket.filledUntil

/-- Is the instant among those that the bucket is filled for? -/
def credits (call : Call α) (instant : Nat) : Bool :=
  call.bucket.filledUntil ≤ instant && instant < call.now

end Call

/-- The calls at these times, one after another. -/
def calls (bucket : TokenBucket α) : List Nat → List (Call α)
  | [] => []
  | now :: later => ⟨bucket, now⟩ :: (bucket.tryConsume now).2.calls later

/-- The bucket that these calls leave behind. -/
def after (bucket : TokenBucket α) (times : List Nat) : TokenBucket α :=
  times.foldl (fun bucket now => (bucket.tryConsume now).2) bucket

@[simp] theorem after_nil (bucket : TokenBucket α) : bucket.after [] = bucket := rfl

@[simp] theorem after_cons (bucket : TokenBucket α) (now : Nat) (later : List Nat) :
    bucket.after (now :: later) = (bucket.tryConsume now).2.after later := rfl

/-! ## Time -/

theorem filledUntil_after (bucket : TokenBucket α) (times : List Nat) :
    (bucket.after times).filledUntil = times.foldl max bucket.filledUntil := by
  induction times generalizing bucket with
  | nil => rfl
  | cons now later ih => rw [after_cons, ih, filledUntil_tryConsume, List.foldl_cons]

theorem filledUntil_le_after (bucket : TokenBucket α) (times : List Nat) :
    bucket.filledUntil ≤ (bucket.after times).filledUntil := by
  induction times generalizing bucket with
  | nil => exact Nat.le_refl _
  | cons now later ih =>
    have step := filledUntil_tryConsume bucket now
    exact (step ▸ Nat.le_max_left ..).trans (ih _)

theorem sum_elapsed (bucket : TokenBucket α) (times : List Nat) :
    ((bucket.calls times).map Call.elapsed).sum =
      (bucket.after times).filledUntil - bucket.filledUntil := by
  induction times generalizing bucket with
  | nil => simp [calls]
  | cons now later ih =>
    have step := filledUntil_tryConsume bucket now
    have rest := filledUntil_le_after (bucket.tryConsume now).2 later
    simp only [calls, List.map_cons, List.sum_cons, ih, Call.elapsed, after_cons]
    omega

/-- The later calls credit what lies behind the new mark, this one what lies before it. -/
theorem countP_credits (bucket : TokenBucket α) (times : List Nat) (instant : Nat) :
    (bucket.calls times).countP (·.credits instant) =
      if bucket.filledUntil ≤ instant ∧ instant < (bucket.after times).filledUntil then 1
      else 0 := by
  induction times generalizing bucket with
  | nil =>
    have nothing : ¬ (bucket.filledUntil ≤ instant ∧ instant < bucket.filledUntil) := by omega
    rw [after_nil, if_neg nothing]
    rfl
  | cons now later ih =>
    have step := filledUntil_tryConsume bucket now
    have rest := filledUntil_le_after (bucket.tryConsume now).2 later
    rw [calls, List.countP_cons, ih, after_cons]
    simp only [Call.credits, Bool.and_eq_true, decide_eq_true_eq]
    split_ifs <;> omega

end

/-! ## Amounts that are counted exactly -/

theorem larger_eq_max (left right : Rat) : Amount.larger left right = max left right :=
  (max_def_lt left right).symm

theorem smaller_eq_min (left right : Rat) : Amount.smaller left right = min left right :=
  (min_def_lt right left).symm.trans (min_comm right left)

theorem atMost_iff {left right : Rat} : Amount.atMost left right = true ↔ left ≤ right := by
  show (!right.blt left) = true ↔ left ≤ right
  rw [Bool.not_eq_true', ← Bool.not_eq_true]
  exact Rat.not_lt

theorem seconds_eq (nanoseconds : Nat) :
    (Amount.seconds nanoseconds : Rat) = nanoseconds / nanosecondsPerSecond :=
  Rat.mkRat_eq_div nanoseconds nanosecondsPerSecond

section
variable {rate : Rat} {bucket : TokenBucket Rat} {now : Nat}

theorem tokens_refill (bucket : TokenBucket Rat) (now : Nat) :
    (bucket.refill now).tokens =
      min (bucket.tokens + (now - bucket.filledUntil : Nat) / nanosecondsPerSecond * bucket.rate)
        bucket.capacity := by
  rw [← seconds_eq, ← smaller_eq_min]
  rfl

theorem tryConsume_of_enough (enough : 1 ≤ (bucket.refill now).tokens) :
    bucket.tryConsume now =
      (true, { bucket.refill now with tokens := (bucket.refill now).tokens - 1 }) :=
  if_pos (atMost_iff.mpr enough)

theorem tryConsume_of_few (few : (bucket.refill now).tokens < 1) :
    bucket.tryConsume now = (false, bucket.refill now) :=
  if_neg fun enough => not_le.mpr few (atMost_iff.mp enough)

/-- A call is refused exactly when the refill has left it less than a token. -/
theorem allowed_eq_false_iff (call : Call Rat) :
    call.allowed = false ↔ (call.bucket.refill call.now).tokens < 1 := by
  rcases le_or_gt 1 (call.bucket.refill call.now).tokens with enough | few
  · simp [Call.allowed, tryConsume_of_enough enough, enough]
  · simp [Call.allowed, tryConsume_of_few few, few]

/-! ## The account -/

/-- What is true of a bucket of the given rate at any time. -/
structure Sound (rate : Rat) (bucket : TokenBucket Rat) : Prop where
  rate_eq : bucket.rate = max rate 0
  capacity_eq : bucket.capacity = max (max rate 0) 1
  nonnegative : 0 ≤ bucket.tokens
  bounded : bucket.tokens ≤ bucket.capacity

theorem sound_ofRate (rate : Rat) (now : Nat) : Sound rate (ofRate rate now) := by
  have capacity : (ofRate rate now).capacity = max (max rate 0) 1 := by
    rw [← larger_eq_max, ← larger_eq_max]
    rfl
  refine ⟨larger_eq_max rate 0, capacity, ?_, le_rfl⟩
  show 0 ≤ (ofRate rate now).capacity
  rw [capacity]
  exact zero_le_one.trans (le_max_right _ _)

theorem Sound.refill (sound : Sound rate bucket) (now : Nat) :
    Sound rate (bucket.refill now) := by
  refine ⟨sound.rate_eq, sound.capacity_eq, ?_, ?_⟩
  · rw [tokens_refill, sound.rate_eq]
    have gained : (0 : Rat) ≤
        (now - bucket.filledUntil : Nat) / nanosecondsPerSecond * max rate 0 := by positivity
    exact le_min (add_nonneg sound.nonnegative gained) (sound.nonnegative.trans sound.bounded)
  · rw [tokens_refill]
    exact min_le_right _ _

theorem Sound.tryConsume (sound : Sound rate bucket) (now : Nat) :
    Sound rate (bucket.tryConsume now).2 := by
  have filled := sound.refill now
  rcases le_or_gt 1 (bucket.refill now).tokens with enough | few
  · rw [tryConsume_of_enough enough]
    exact ⟨filled.rate_eq, filled.capacity_eq, sub_nonneg.mpr enough,
      (sub_le_self _ zero_le_one).trans filled.bounded⟩
  · rw [tryConsume_of_few few]
    exact filled

theorem Sound.after (sound : Sound rate bucket) (times : List Nat) :
    Sound rate (bucket.after times) := by
  induction times generalizing bucket with
  | nil => exact sound
  | cons now later ih => exact ih (sound.tryConsume now)

theorem Sound.of_mem_calls (sound : Sound rate bucket) {times : List Nat} {call : Call Rat}
    (member : call ∈ bucket.calls times) : Sound rate call.bucket := by
  induction times generalizing bucket with
  | nil => cases member
  | cons now later ih =>
    rcases List.mem_cons.mp member with rfl | later
    · exact sound
    · exact ih (sound.tryConsume now) later

/-- The token that a call takes, and what it leaves, were there or have come in. -/
theorem Call.taken_add_left_le (call : Call Rat) :
    (if call.allowed then 1 else 0) + (call.bucket.tryConsume call.now).2.tokens ≤
      call.bucket.tokens + call.elapsed / nanosecondsPerSecond * call.bucket.rate := by
  have filled : (call.bucket.refill call.now).tokens ≤ _ :=
    (tokens_refill call.bucket call.now).trans_le (min_le_left _ _)
  rcases le_or_gt 1 (call.bucket.refill call.now).tokens with enough | few
  · simpa [Call.allowed, Call.elapsed, tryConsume_of_enough enough] using filled
  · simpa [Call.allowed, Call.elapsed, tryConsume_of_few few] using filled

theorem Sound.taken_add_left_le (sound : Sound rate bucket) (times : List Nat) :
    (bucket.calls times).countP Call.allowed + (bucket.after times).tokens ≤
      bucket.tokens +
        ((bucket.after times).filledUntil - bucket.filledUntil : Nat) / nanosecondsPerSecond *
          max rate 0 := by
  induction times generalizing bucket with
  | nil => simp [calls]
  | cons now later ih =>
    have here := Call.taken_add_left_le ⟨bucket, now⟩
    have rest := ih (sound.tryConsume now)
    have mark := filledUntil_tryConsume bucket now
    have further := filledUntil_le_after (bucket.tryConsume now).2 later
    -- The two stretches that are credited follow each other.
    have whole : ((bucket.after (now :: later)).filledUntil - bucket.filledUntil : Nat) =
        (now - bucket.filledUntil) +
          (((bucket.tryConsume now).2.after later).filledUntil -
            (bucket.tryConsume now).2.filledUntil) := by
      rw [after_cons]
      omega
    rw [whole, calls, List.countP_cons, after_cons]
    simp only [Call.elapsed, sound.rate_eq] at here
    push_cast
    rw [add_div, add_mul]
    split_ifs at here ⊢ <;> linarith

end

/-- However often the bucket is called, at whatever times. It has been filled up to the latest time
that it has seen: what the calls credit adds up to the time since the start, and they credit each
instant of it once. The tokens stay between none and the capacity, and each refill brings what its
time is worth, as far as there is room. So no more calls are allowed than the capacity and the time
since the start pay for; and a call is refused only if less than a token is there for it. -/
theorem keeps_rate (rate : Rat) (start : Nat) (times : List Nat) :
    let calls := (ofRate rate start).calls times
    let bucket := (ofRate rate start).after times
    bucket.filledUntil = times.foldl max start ∧
    (calls.map Call.elapsed).sum = bucket.filledUntil - start ∧
    (∀ instant, calls.countP (·.credits instant) =
      if start ≤ instant ∧ instant < bucket.filledUntil then 1 else 0) ∧
    bucket.capacity = max (max rate 0) 1 ∧
    0 ≤ bucket.tokens ∧ bucket.tokens ≤ bucket.capacity ∧
    (calls.countP Call.allowed : Rat) ≤ bucket.capacity +
      max rate 0 * ((bucket.filledUntil - start : Nat) / nanosecondsPerSecond) ∧
    ∀ call ∈ calls,
      (call.bucket.refill call.now).tokens =
        min (call.bucket.tokens + max rate 0 * (call.elapsed / nanosecondsPerSecond))
          bucket.capacity ∧
      (call.allowed = false ↔ (call.bucket.refill call.now).tokens < 1) := by
  intro calls bucket
  have fresh := sound_ofRate rate start
  have sound : Sound rate bucket := fresh.after times
  refine ⟨filledUntil_after _ times, sum_elapsed _ times, countP_credits _ times, sound.capacity_eq,
    sound.nonnegative, sound.bounded, ?_, fun call member => ⟨?_, allowed_eq_false_iff call⟩⟩
  · have account := fresh.taken_add_left_le times
    have left : 0 ≤ bucket.tokens := sound.nonnegative
    have full : (ofRate rate start).tokens = bucket.capacity :=
      fresh.capacity_eq.trans sound.capacity_eq.symm
    rw [full] at account
    rw [mul_comm]
    exact (le_add_of_nonneg_right left).trans account
  · have met := fresh.of_mem_calls member
    rw [tokens_refill, met.rate_eq, met.capacity_eq, sound.capacity_eq, mul_comm (max rate 0)]
    rfl

/-- Half a token in a second: the clock goes back before the third call and has caught up at the
fourth, and the fifth finds a whole token again. -/
example : ((ofRate (1 / 2 : Rat) 5000000000).calls
    [5000000000, 6000000000, 1000000000, 6000000000, 7000000000]).map Call.allowed =
      [true, false, false, false, true] := by decide +kernel

end Catchup.TokenBucket
