/-
What an operation does is said by a condition on its answer and on the state that it leaves. That
the condition holds includes that there is an answer: an operation that stops with a fault meets no
condition whatever. The rules follow the ways in which operations are put together.
-/

import PooledContainers.Operation

namespace PooledContainers

namespace Operation

variable {State Part Answer Next : Type}

/-- From a state the operation has an answer, and the answer and the state that it leaves meet a
condition. -/
def Ends (operation : Operation State Answer) (state : State)
    (condition : Answer → State → Prop) : Prop :=
  ∃ answer after, operation state = .ok (answer, after) ∧ condition answer after

/-- An operation that has an answer goes on with it. -/
theorem bind_of_ok {operation : Operation State Answer} {next : Answer → Operation State Next}
    {state after : State} {answer : Answer} (ran : operation state = .ok (answer, after)) :
    (operation >>= next) state = next answer after := by
  show (operation state >>= fun outcome => next outcome.1 outcome.2) = _
  rw [ran]
  rfl

namespace Ends

variable {operation : Operation State Answer} {state : State}
  {condition : Answer → State → Prop}

theorem of_eq {answer : Answer} {after : State} (ran : operation state = .ok (answer, after))
    (holds : condition answer after) : Ends operation state condition :=
  ⟨answer, after, ran, holds⟩

/-- From a state in which two operations do the same, both meet a condition if one does. -/
theorem congr {other : Operation State Answer} (same : operation state = other state)
    (ends : Ends other state condition) : Ends operation state condition := by
  obtain ⟨answer, after, ran, holds⟩ := ends
  exact ⟨answer, after, same.trans ran, holds⟩

theorem imp {weaker : Answer → State → Prop} (ends : Ends operation state condition)
    (implies : ∀ answer after, condition answer after → weaker answer after) :
    Ends operation state weaker := by
  obtain ⟨answer, after, ran, holds⟩ := ends
  exact ⟨answer, after, ran, implies answer after holds⟩

theorem pure {answer : Answer} (holds : condition answer state) :
    Ends (Pure.pure answer : Operation State Answer) state condition :=
  ⟨answer, state, rfl, holds⟩

/-- What an operation was seen to do meets the condition. -/
theorem of_ran {answer : Answer} {after : State} (ends : Ends operation state condition)
    (ran : operation state = .ok (answer, after)) : condition answer after := by
  obtain ⟨other, last, ranOther, holds⟩ := ends
  obtain ⟨rfl, rfl⟩ := Prod.mk.inj (Except.ok.inj (ran.symm.trans ranOther))
  exact holds

/-- An operation that meets a condition does not fault. -/
theorem ne_error (ends : Ends operation state condition) (fault : Fault) :
    operation state ≠ .error fault := by
  obtain ⟨answer, after, ran, -⟩ := ends
  rw [ran]
  exact nofun

/-- One operation after another: the first has to leave a state from which the second meets the
condition. -/
theorem bind {next : Answer → Operation State Next} {goal : Next → State → Prop}
    (ends : Ends operation state fun answer after => Ends (next answer) after goal) :
    Ends (operation >>= next) state goal := by
  obtain ⟨answer, after, ran, ⟨final, last, ranNext, holds⟩⟩ := ends
  exact ⟨final, last, (bind_of_ok ran).trans ranNext, holds⟩

/-- What two operations are known to do, the second does from where the first one ends. -/
theorem of_bind {next : Answer → Operation State Next} {goal : Next → State → Prop}
    (ends : Ends (operation >>= next) state goal) :
    Ends operation state fun answer after => Ends (next answer) after goal := by
  obtain ⟨final, last, ran, holds⟩ := ends
  replace ran : (operation state >>= fun outcome => next outcome.1 outcome.2) =
    .ok (final, last) := ran
  cases first : operation state with
  | error fault =>
    rw [first] at ran
    exact nomatch ran
  | ok outcome =>
    rw [first] at ran
    exact ⟨outcome.1, outcome.2, first, final, last, ran, holds⟩

/-- One operation after another, when a condition of the first one is known. -/
theorem andThen {next : Answer → Operation State Next} {goal : Next → State → Prop}
    (ends : Ends operation state condition)
    (continues : ∀ answer after, condition answer after → Ends (next answer) after goal) :
    Ends (operation >>= next) state goal :=
  bind (ends.imp continues)

theorem reading {read : State → Except Fault Answer} {answer : Answer}
    (found : read state = .ok answer) (holds : condition answer state) :
    Ends (Operation.reading read) state condition := by
  refine ⟨answer, state, ?_, holds⟩
  unfold Operation.reading
  rw [found]

theorem updating {update : State → State} {goal : Unit → State → Prop}
    (holds : goal () (update state)) : Ends (Operation.updating update) state goal :=
  ⟨(), update state, rfl, holds⟩

theorem onStart {start : State → Operation State Answer}
    (ends : Ends (start state) state condition) :
    Ends (Operation.onStart start) state condition :=
  ends

/-- An operation on a part leaves the rest of the state as it was. -/
theorem within {part : State → Part} {replace : State → Part → State}
    {inner : Operation Part Answer}
    (ends : Ends inner (part state) fun answer changed =>
      condition answer (replace state changed)) :
    Ends (Operation.within part replace inner) state condition := by
  obtain ⟨answer, changed, ran, holds⟩ := ends
  refine ⟨answer, replace state changed, ?_, holds⟩
  unfold Operation.within
  rw [ran]

/-- What an operation on a part is known to do, it does from that part. -/
theorem of_within {part : State → Part} {replace : State → Part → State}
    {inner : Operation Part Answer}
    (ends : Ends (Operation.within part replace inner) state condition) :
    Ends inner (part state) fun answer changed => condition answer (replace state changed) := by
  obtain ⟨answer, after, ran, holds⟩ := ends
  unfold Operation.within at ran
  split at ran
  next found changed operated =>
    obtain ⟨rfl, rfl⟩ := Prod.mk.inj (Except.ok.inj ran)
    exact ⟨found, changed, operated, holds⟩
  next => exact nomatch ran

end Ends

end Operation

end PooledContainers
