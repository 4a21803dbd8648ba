/-
Every step on a queue ends of itself, and nothing is ever tried twice. Help is nested no deeper, and
no loop takes more steps, than the nodes of the queue account for, so that it does not matter how
much further a limit would let them go. A link or a data word that is to be replaced is still the
one that was read, and a node that is being linked has a predecessor kept for each of its levels and
is not deleted meanwhile: each of these failing is a fault that the step would stop with, and none
does.
-/

import PooledContainers.Proofs.PriorityQueue.Limits
import PooledContainers.Proofs.PriorityQueue.Runs

namespace PooledContainers

namespace PriorityQueue

open Operation

variable {options : Options} {history : History} {session : Session PriorityQueue Handle}

/-- Whatever limit is set to the walks of a step, the step has the answer that it has within the
limit of the queue, unless it is cut short. -/
theorem takeWithin_eq_or {step : Step} {answer : Answer} {after : Session PriorityQueue Handle}
    (answered : take step session = .ok (answer, after)) (limit : Nat → Nat) :
    takeWithin limit step session = .error .unfinished ∨
      takeWithin limit step session = .ok (answer, after) := by
  have higher : takeWithin (fun size => max (limit size) (walkBound size)) step session =
      .ok (answer, after) :=
    (takeWithin_cutsShort (fun _ => Nat.le_max_right _ _) step).eq_ok answered
  rw [← higher]
  exact takeWithin_cutsShort (fun _ => Nat.le_max_left _ _) step session

/-- Every step from a session of a legal run has an answer within the limit of the queue, and the
same answer within any higher limit. Within a lower one the step may be cut short, but it stops for
no other reason. -/
theorem steps_end (reached : Reached options history session) (step : Step) :
    ∃ answer after, take step session = .ok (answer, after) ∧ ∀ limit : Nat → Nat,
      (takeWithin limit step session = .error .unfinished ∨
        takeWithin limit step session = .ok (answer, after)) ∧
      ((∀ size, walkBound size ≤ limit size) →
        takeWithin limit step session = .ok (answer, after)) := by
  obtain ⟨line, free, inOrder⟩ := reached.inOrder
  obtain ⟨answer, after, answered, -⟩ := inOrder.take_ends step
  refine ⟨answer, after, answered, fun limit => ⟨takeWithin_eq_or answered limit, fun le => ?_⟩⟩
  exact (takeWithin_cutsShort le step).eq_ok answered

/-- A node whose removal is half done may be asked for its successor, for which its removal is
finished at the level. -/
theorem steps_end_halfRemoved : ∃ history session handle answer after,
    followFromStart smallOptions halfRemoved = some (history, session) ∧
      HalfDone history session handle ∧
      take (.successor "node" 0) session = .ok (answer, after) ∧ ∀ limit : Nat → Nat,
        (takeWithin limit (.successor "node" 0) session = .error .unfinished ∨
          takeWithin limit (.successor "node" 0) session = .ok (answer, after)) ∧
        ((∀ size, walkBound size ≤ limit size) →
          takeWithin limit (.successor "node" 0) session = .ok (answer, after)) := by
  obtain ⟨history, session, handle, followed, halfDone⟩ := exists_halfRemoved
  obtain ⟨answer, after, ends⟩ := steps_end (Reached.of_steps followed) (.successor "node" 0)
  exact ⟨history, session, handle, answer, after, followed, halfDone, ends⟩

end PriorityQueue

end PooledContainers
