import Catchup.Duration

/-! A token bucket: it fills at a steady rate up to the tokens of one second, at least one, and each
action takes a token.

The bucket is generic over the amounts it counts in. Floating-point amounts run it; rational amounts
say what it counts. Times are nanoseconds and may go backwards: an interval is credited once. -/

set_option autoImplicit false

namespace Catchup

/-- The arithmetic that a bucket needs. -/
class Amount (α : Type) where
  zero : α
  one : α
  add : α → α → α
  sub : α → α → α
  mul : α → α → α
  larger : α → α → α
  smaller : α → α → α
  /-- Is the first at most the second? -/
  atMost : α → α → Bool
  seconds : Nat → α

/-- Where one operand is not a number, `larger` and `smaller` give the other. -/
instance : Amount Float where
  zero := 0
  one := 1
  add := (· + ·)
  sub := (· - ·)
  mul := (· * ·)
  larger left right :=
    if left.isNaN then right else if right.isNaN then left else if left < right then right else left
  smaller left right :=
    if left.isNaN then right else if right.isNaN then left else if right < left then right else left
  atMost left right := left ≤ right
  seconds nanoseconds :=
    Float.ofNat (nanoseconds / nanosecondsPerSecond) +
      Float.ofNat (nanoseconds % nanosecondsPerSecond) / Float.ofNat nanosecondsPerSecond

instance : Amount Rat where
  zero := 0
  one := 1
  add := Rat.add
  sub := Rat.sub
  mul := Rat.mul
  larger left right := if left.blt right then right else left
  smaller left right := if right.blt left then right else left
  atMost left right := !right.blt left
  seconds nanoseconds := mkRat nanoseconds nanosecondsPerSecond

structure TokenBucket (α : Type) where
  tokens : α
  capacity : α
  rate : α
  /-- Up to when the bucket has been filled. -/
  filledUntil : Nat
  deriving Repr

namespace TokenBucket

variable {α : Type} [Amount α]

def ofRate (rate : α) (now : Nat) : TokenBucket α :=
  let rate := Amount.larger rate Amount.zero
  let capacity := Amount.larger rate Amount.one
  { tokens := capacity, capacity, rate, filledUntil := now }

def refill (bucket : TokenBucket α) (now : Nat) : TokenBucket α :=
  let gained := Amount.mul (Amount.seconds (now - bucket.filledUntil)) bucket.rate
  { bucket with
    tokens := Amount.smaller (Amount.add bucket.tokens gained) bucket.capacity
    filledUntil := max bucket.filledUntil now }

/-- Take a token if there is one after refilling, and say whether there was. -/
def tryConsume (bucket : TokenBucket α) (now : Nat) : Bool × TokenBucket α :=
  let filled := bucket.refill now
  if Amount.atMost Amount.one filled.tokens then
    (true, { filled with tokens := Amount.sub filled.tokens Amount.one })
  else (false, filled)

@[simp] theorem filledUntil_tryConsume (bucket : TokenBucket α) (now : Nat) :
    (bucket.tryConsume now).2.filledUntil = max bucket.filledUntil now := by
  simp only [tryConsume]
  split <;> rfl

end TokenBucket

end Catchup
