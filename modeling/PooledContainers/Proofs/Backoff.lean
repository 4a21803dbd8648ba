/-
The delays of a backoff in closed form. The delay is cut at the ceiling after every doubling, but
that comes to the same as cutting it once at the end: after some waits it is the initial delay
doubled that often, or the ceiling if that is less. Every doubling on the way has a value if the
double of the ceiling has one, and only then unless the initial delay is zero.
-/

import Mathlib.Algebra.Group.Nat.Defs
import Mathlib.Order.MinMax
import Mathlib.Tactic.Choose
import PooledContainers.Backoff

namespace PooledContainers

namespace Duration

/-- A length can be doubled if its double can be represented. -/
theorem isSome_double?_iff {duration : Duration} :
    duration.double?.isSome = true ↔ duration.nanoseconds * 2 ≤ longestNanoseconds := by
  unfold double?
  split
  next fits => exact iff_of_true rfl fits
  next tooLong => exact iff_of_false Bool.false_ne_true tooLong

theorem nanoseconds_of_double? {duration doubled : Duration}
    (doubles : duration.double? = some doubled) :
    doubled.nanoseconds = duration.nanoseconds * 2 := by
  unfold double? at doubles
  split at doubles
  next => rw [← Option.some.inj doubles]
  next => exact absurd doubles (by simp)

end Duration

namespace Backoff

/-! ### One wait -/

section Waiting

variable {backoff later : Backoff}

/-- A wait has a result if the delay can be doubled. -/
theorem isSome_wait : backoff.wait.isSome = backoff.delay.double?.isSome := Option.isSome_map

theorem ceiling_of_wait (waits : backoff.wait = some later) : later.ceiling = backoff.ceiling := by
  obtain ⟨_, _, rfl⟩ := Option.map_eq_some_iff.mp waits
  rfl

theorem nanoseconds_of_wait (waits : backoff.wait = some later) :
    later.delay.nanoseconds =
      min (backoff.delay.nanoseconds * 2) backoff.ceiling.nanoseconds := by
  obtain ⟨doubled, doubles, rfl⟩ := Option.map_eq_some_iff.mp waits
  rw [← Duration.nanoseconds_of_double? doubles]
  exact Duration.nanoseconds_shorter doubled backoff.ceiling

end Waiting

/-! ### Any number of waits -/

section Waits

variable {bounds : BackoffBounds} {count : Nat} {backoff : Backoff}

/-- The delay after a number of waits, if they have a result. -/
structure Doubled (bounds : BackoffBounds) (count : Nat) (backoff : Backoff) : Prop where
  ceiling : backoff.ceiling = bounds.ceiling
  delay : backoff.delay.nanoseconds =
    min bounds.ceiling.nanoseconds (bounds.initial.nanoseconds * 2 ^ count)

theorem doubled_start (bounds : BackoffBounds) : Doubled bounds 0 (start bounds) where
  ceiling := rfl
  delay := by
    rw [Nat.pow_zero, Nat.mul_one, Nat.min_comm]
    exact Duration.nanoseconds_shorter bounds.initial bounds.ceiling

/-- Cutting before a doubling makes no difference to cutting after it. -/
theorem Doubled.wait (doubled : Doubled bounds count backoff) {later : Backoff}
    (waits : backoff.wait = some later) : Doubled bounds (count + 1) later where
  ceiling := (ceiling_of_wait waits).trans doubled.ceiling
  delay := by
    rw [nanoseconds_of_wait waits, doubled.ceiling, doubled.delay, Nat.pow_succ, ← Nat.mul_assoc]
    omega

theorem doubled_afterWaits (waited : (start bounds).afterWaits count = some backoff) :
    Doubled bounds count backoff := by
  induction count generalizing backoff with
  | zero =>
    rw [← Option.some.inj waited]
    exact doubled_start bounds
  | succ count inductionHypothesis =>
    obtain ⟨earlier, waitedEarlier, waits⟩ := Option.bind_eq_some_iff.mp waited
    exact (inductionHypothesis waitedEarlier).wait waits

/-- A delay can be doubled if its ceiling can, and zero can be doubled anyway. -/
theorem Doubled.isSome_double? (doubled : Doubled bounds count backoff)
    (spared : bounds.initial.nanoseconds = 0 ∨ bounds.ceiling.double?.isSome = true) :
    backoff.delay.double?.isSome = true := by
  rw [Duration.isSome_double?_iff, doubled.delay]
  rcases spared with zero | doubles
  · rw [zero, Nat.zero_mul, Nat.min_zero, Nat.zero_mul]
    exact Nat.zero_le _
  · exact le_trans (Nat.mul_le_mul_right 2 (min_le_left _ _))
      (Duration.isSome_double?_iff.mp doubles)

/-- Every number of waits has a result just if the initial delay is zero or the ceiling can be
doubled. -/
theorem forall_isSome_afterWaits_iff :
    (∀ count, ((start bounds).afterWaits count).isSome = true) ↔
      bounds.initial.nanoseconds = 0 ∨ bounds.ceiling.double?.isSome = true := by
  constructor
  · intro waits
    refine or_iff_not_imp_left.mpr fun positive => ?_
    -- From a nanosecond or more, so many waits as the ceiling has nanoseconds come to the ceiling.
    obtain ⟨backoff, waited⟩ := Option.isSome_iff_exists.mp (waits bounds.ceiling.nanoseconds)
    have atCeiling : backoff.delay.nanoseconds = bounds.ceiling.nanoseconds := by
      rw [(doubled_afterWaits waited).delay, min_eq_left]
      calc bounds.ceiling.nanoseconds ≤ 2 ^ bounds.ceiling.nanoseconds := Nat.lt_two_pow_self.le
        _ ≤ bounds.initial.nanoseconds * 2 ^ bounds.ceiling.nanoseconds :=
          Nat.le_mul_of_pos_left _ (Nat.pos_of_ne_zero positive)
    have further := waits (bounds.ceiling.nanoseconds + 1)
    rw [afterWaits, waited, Option.bind_some, isSome_wait, Duration.isSome_double?_iff,
      atCeiling] at further
    exact Duration.isSome_double?_iff.mpr further
  · intro spared count
    induction count with
    | zero => rfl
    | succ count inductionHypothesis =>
      obtain ⟨backoff, waited⟩ := Option.isSome_iff_exists.mp inductionHypothesis
      rw [afterWaits, waited, Option.bind_some, isSome_wait]
      exact (doubled_afterWaits waited).isSome_double? spared

/-- If the ceiling can be doubled, every number of waits has a result, and its delay can be doubled
again. It is the initial delay doubled once for every wait and cut at the ceiling, so that it never
decreases and never passes the ceiling. -/
theorem delays_double (doubles : bounds.ceiling.double?.isSome = true) :
    ∃ waited : Nat → Backoff,
      (∀ count, (start bounds).afterWaits count = some (waited count) ∧
        (waited count).delay.nanoseconds =
          min bounds.ceiling.nanoseconds (bounds.initial.nanoseconds * 2 ^ count) ∧
        (waited count).delay.double?.isSome = true ∧
        (waited count).delay.nanoseconds ≤ bounds.ceiling.nanoseconds) ∧
      Monotone fun count => (waited count).delay.nanoseconds := by
  have always := forall_isSome_afterWaits_iff.mpr (Or.inr doubles)
  choose waited results using fun count => Option.isSome_iff_exists.mp (always count)
  have closed := fun count => doubled_afterWaits (results count)
  refine ⟨waited, fun count => ⟨results count, (closed count).delay, ?double, ?ceiling⟩,
    ?monotone⟩
  case double => exact (closed count).isSome_double? (Or.inr doubles)
  case ceiling => exact (closed count).delay ▸ min_le_left _ _
  case monotone =>
    intro fewer more le
    show (waited fewer).delay.nanoseconds ≤ (waited more).delay.nanoseconds
    rw [(closed fewer).delay, (closed more).delay]
    exact min_le_min_left _ (Nat.mul_le_mul_left _ (Nat.pow_le_pow_right Nat.two_pos le))

/-- A nanosecond at first, and the longest ceiling that can be doubled. -/
def widestBounds : BackoffBounds where
  initial := ⟨1, by decide⟩
  ceiling := ⟨longestNanoseconds / 2, Nat.div_le_self _ _⟩

/-- It takes ninety-three waits to come to that ceiling. -/
theorem delays_double_widest :
    widestBounds.ceiling.double?.isSome = true ∧
      ∃ waited : Nat → Backoff,
        (∀ count, (start widestBounds).afterWaits count = some (waited count)) ∧
        (waited 92).delay.nanoseconds = 2 ^ 92 ∧
        (waited 93).delay.nanoseconds = longestNanoseconds / 2 ∧
        Monotone fun count => (waited count).delay.nanoseconds := by
  have doubles : widestBounds.ceiling.double?.isSome = true := by decide
  obtain ⟨waited, closed, monotone⟩ := delays_double doubles
  refine ⟨doubles, waited, fun count => (closed count).1, ?_, ?_, monotone⟩
  · rw [(closed 92).2.1]
    decide
  · rw [(closed 93).2.1]
    decide

end Waits

end Backoff

end PooledContainers
