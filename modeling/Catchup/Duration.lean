/-! Times and durations are natural numbers of nanoseconds. -/

set_option autoImplicit false

namespace Catchup

def nanosecondsPerMillisecond : Nat := 1_000_000

def nanosecondsPerSecond : Nat := 1_000_000_000

/-- The first whole millisecond that is not before the time. -/
def roundUp (time : Nat) : Nat :=
  (time + (nanosecondsPerMillisecond - 1)) / nanosecondsPerMillisecond * nanosecondsPerMillisecond

end Catchup
