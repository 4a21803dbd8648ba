/-
Waiting between attempts. A delay starts at a configured length, doubles with every wait and never
passes a configured ceiling. Lengths are whole nanoseconds below a fixed limit, and a doubling that
would pass the limit has no value.
-/

namespace PooledContainers

/-! ### Lengths of time -/

/-- The longest length of time there is: a nanosecond short of 2 ^ 64 seconds. -/
def longestNanoseconds : Nat := UInt64.size * 1000000000 - 1

/-- A length of time in whole nanoseconds. -/
structure Duration where
  /-- The number of nanoseconds. -/
  nanoseconds : Nat
  /-- The length can be represented. -/
  representable : nanoseconds ≤ longestNanoseconds

namespace Duration

theorem ext_nanoseconds {first second : Duration}
    (same : first.nanoseconds = second.nanoseconds) : first = second := by
  cases first
  cases second
  cases same
  rfl

instance : DecidableEq Duration := fun first second =>
  if same : first.nanoseconds = second.nanoseconds then isTrue (ext_nanoseconds same)
  else isFalse fun equal => same (congrArg nanoseconds equal)

/-- A length given by a word of nanoseconds; every word gives one. -/
def ofNanoseconds (nanoseconds : UInt64) : Duration :=
  ⟨nanoseconds.toNat, by
    have bound := nanoseconds.toNat_lt
    unfold longestNanoseconds UInt64.size
    omega⟩

/-- The shorter of two lengths. -/
def shorter (first second : Duration) : Duration :=
  if first.nanoseconds ≤ second.nanoseconds then first else second

/-- Twice the length, if that can be represented. -/
def double? (duration : Duration) : Option Duration :=
  if representable : duration.nanoseconds * 2 ≤ longestNanoseconds then
    some ⟨duration.nanoseconds * 2, representable⟩
  else none

theorem nanoseconds_shorter (first second : Duration) :
    (first.shorter second).nanoseconds = min first.nanoseconds second.nanoseconds := by
  unfold shorter
  split <;> omega

end Duration

/-! ### The doubling delay -/

/-- The bounds of a doubling delay. -/
structure BackoffBounds where
  /-- The delay before the first wait, unless the ceiling is lower. -/
  initial : Duration
  /-- The delay that is never passed. -/
  ceiling : Duration
deriving DecidableEq

/-- The bounds used where none are given: 2 ^ 6 microseconds and 2 ^ 20 - 1 microseconds. -/
def BackoffBounds.default : BackoffBounds :=
  ⟨Duration.ofNanoseconds 64000, Duration.ofNanoseconds 1048575000⟩

/-- A doubling delay under way. -/
structure Backoff where
  /-- How long the next wait lasts. -/
  delay : Duration
  /-- The delay that is never passed. -/
  ceiling : Duration

namespace Backoff

/-- The delay before any wait: the initial one, cut at the ceiling. -/
def start (bounds : BackoffBounds) : Backoff :=
  ⟨bounds.initial.shorter bounds.ceiling, bounds.ceiling⟩

/-- After one wait the delay is doubled and cut at the ceiling. There is no result if the double
cannot be represented. -/
def wait (backoff : Backoff) : Option Backoff :=
  backoff.delay.double?.map fun doubled =>
    { backoff with delay := doubled.shorter backoff.ceiling }

/-- After a number of waits. -/
def afterWaits (backoff : Backoff) : Nat → Option Backoff
  | 0 => some backoff
  | count + 1 => (backoff.afterWaits count).bind wait

end Backoff

end PooledContainers
