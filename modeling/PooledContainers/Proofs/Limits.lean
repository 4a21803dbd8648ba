/-
Operations that are cut short. A loop that has to keep within a limit stops as unfinished when it
comes to it, and does the same as one with a higher limit until then. So an operation that has an
answer within some limit has the same answer within any higher one, and it stops for no other reason
within any lower one.
-/

import PooledContainers.Operation

namespace PooledContainers

namespace Operation

variable {State Part Answer Next : Type}

/-- From every state one operation does what the other one does, unless it is cut short. -/
def CutsShort (short long : Operation State Answer) : Prop :=
  ∀ state, short state = .error .unfinished ∨ short state = long state

namespace CutsShort

variable {short long : Operation State Answer}

@[refl] theorem refl (operation : Operation State Answer) : CutsShort operation operation :=
  fun _ => Or.inr rfl

theorem stop (long : Operation State Answer) : CutsShort (Operation.stop .unfinished) long :=
  fun _ => Or.inl rfl

/-- An answer that was had is had by the longer operation too. -/
theorem eq_ok (cuts : CutsShort short long) {state : State} {outcome : Answer × State}
    (answered : short state = .ok outcome) : long state = .ok outcome := by
  rcases cuts state with cut | same
  · rw [cut] at answered
    exact absurd answered (by simp)
  · rw [← same]
    exact answered

theorem bind (cuts : CutsShort short long) {next longNext : Answer → Operation State Next}
    (rest : ∀ answer, CutsShort (next answer) (longNext answer)) :
    CutsShort (short >>= next) (long >>= longNext) := by
  intro state
  show (short state >>= fun outcome => next outcome.1 outcome.2) = _ ∨
    (short state >>= fun outcome => next outcome.1 outcome.2) =
      (long state >>= fun outcome => longNext outcome.1 outcome.2)
  rcases cuts state with cut | same
  · rw [cut]
    exact Or.inl rfl
  · rw [← same]
    cases short state with
    | error fault => exact Or.inr rfl
    | ok outcome => exact rest outcome.1 outcome.2

/-- The same operation is followed by one that is cut short. -/
theorem andThen (operation : Operation State Answer) {next longNext : Answer → Operation State Next}
    (rest : ∀ answer, CutsShort (next answer) (longNext answer)) :
    CutsShort (operation >>= next) (operation >>= longNext) :=
  (refl operation).bind rest

theorem ite {condition : Prop} [Decidable condition] {other longOther : Operation State Answer}
    (yes : CutsShort short long) (no : CutsShort other longOther) :
    CutsShort (if condition then short else other) (if condition then long else longOther) := by
  by_cases holds : condition
  · rw [if_pos holds, if_pos holds]
    exact yes
  · rw [if_neg holds, if_neg holds]
    exact no

theorem onStart {short long : State → Operation State Answer}
    (each : ∀ state, CutsShort (short state) (long state)) :
    CutsShort (Operation.onStart short) (Operation.onStart long) :=
  fun state => each state state

theorem within {part : State → Part} {replace : State → Part → State}
    {short long : Operation Part Answer} (cuts : CutsShort short long) :
    CutsShort (Operation.within part replace short) (Operation.within part replace long) := by
  intro state
  unfold Operation.within
  rcases cuts (part state) with cut | same
  · rw [cut]
    exact Or.inl rfl
  · rw [same]
    exact Or.inr rfl

end CutsShort

end Operation

end PooledContainers
