import Stepflow.Decimal.Binary

/-!
# Retry delays

After its `attempt`-th failure a step waits before it is tried again. The base delay is the policy's
backoff, doubled with every failure and capped at a minute; up to a tenth of it is added at random,
but never so much that the delay exceeds the base delay after the next failure. So delays do not
shrink and stay under the cap.

Delays are whole numbers of nanoseconds. The sums and products behind them are fractions, rounded
after every operation by a function that is a parameter here: `Binary.nearest` where a program runs,
the identity where the reckoning is meant to be exact.
-/

namespace Stepflow

open Decimal

/-- How often a step is tried and how long it waits in between. -/
structure RetryPolicy where
  /-- The number of tries; zero counts as one. -/
  maxAttempts : Nat := 3
  /-- The delay after the first failure, in seconds. -/
  backoff : Float := 1.0
  deriving DecidableEq

namespace Retry

/-- The number of nanoseconds in a second. -/
def nanosPerSecond : Nat := 1000000000

/-- The longest delay, in seconds. -/
def capSeconds : Nat := 60

/-- The longest delay. -/
def cap : Nat := capSeconds * nanosPerSecond

/-- The whole number nearest to a fraction that is not negative, of two the even one. -/
def roundHalfEven (r : Rat) : Nat := roundDiv r.num.toNat r.den

/-- A number of seconds in whole nanoseconds. -/
def nanosOf (seconds : Rat) : Nat := roundHalfEven (seconds * nanosPerSecond)

/-- A number of nanoseconds in seconds: the whole seconds and the rest are rounded apart. -/
def secondsOf (round : Rat → Rat) (nanos : Nat) : Rat :=
  round ((nanos / nanosPerSecond : Nat) + round ((nanos % nanosPerSecond : Nat) / nanosPerSecond))

/-- One tenth, the greatest share of the base delay that is added at random. -/
def jitterShare : Rat := 1 / 10

/-- The smaller of two fractions. -/
def lesser (a b : Rat) : Rat := if a ≤ b then a else b

/-- The greater of two fractions. -/
def greater (a b : Rat) : Rat := if a ≤ b then b else a

/-- The seconds that a backoff of this many seconds is worth after `attempt` failures. -/
def baseSeconds (backoff : Rat) (attempt : Nat) : Rat :=
  lesser (greater backoff 0 * Nat.pow 2 (min (attempt - 1) 32)) capSeconds

end Retry

namespace RetryPolicy

open Retry

/-- The base delay after `attempt` failures, in nanoseconds. A backoff that is not a number counts
as zero, an infinite one as more than the cap. -/
def baseDelay (p : RetryPolicy) (attempt : Nat) : Nat :=
  if p.backoff.isNaN then 0
  else if p.backoff.isInf then if 0 < p.backoff then cap else 0
  else nanosOf (baseSeconds (Binary.ofFloat p.backoff).toRat attempt)

/-- The delay after `attempt` failures, in nanoseconds, for a random share `jitter` between zero and
one of the addition; every operation is rounded by `round`. -/
def delayWith (round : Rat → Rat) (p : RetryPolicy) (attempt : Nat) (jitter : Rat) : Nat :=
  let base := secondsOf round (p.baseDelay attempt)
  let ceiling := secondsOf round (p.baseDelay (attempt + 1))
  let added := round (round (base * round jitterShare) * greater 0 (lesser jitter 1))
  nanosOf (lesser (round (base + added)) ceiling)

/-- The delay for a random share given as a floating-point number; if that is not a number, the
delay is the longest possible. -/
def delay (p : RetryPolicy) (attempt : Nat) (jitter : Float) : Nat :=
  if jitter.isNaN then nanosOf (secondsOf Binary.nearest (p.baseDelay (attempt + 1)))
  else if jitter.isInf then p.delayWith Binary.nearest attempt (if 0 < jitter then 1 else 0)
  else p.delayWith Binary.nearest attempt (Binary.ofFloat jitter).toRat

end RetryPolicy

end Stepflow
