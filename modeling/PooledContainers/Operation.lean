/-
Operations on a state: they take it from one value to the next and have an answer, or they stop
with a fault. The containers are written so that no fault arises while their rules are kept; each
fault is a cause of its own, so that it can be stated, one by one, that it never does.
-/

namespace PooledContainers

/-! ### Faults -/

/-- A reason why an operation has no answer. -/
inductive Fault where
  /-- A slot or a level past the end was named. -/
  | outOfRange
  /-- A count was given up on a node of which no count was left. -/
  | releaseWithoutCount
  /-- The free list offered a node that was not claimed for it. -/
  | allocationOfLiveNode
  /-- A node was to be unlinked whose link carries no delete mark. -/
  | unlinkOfUnmarked
  /-- A node was to be used at a level that it does not reach. -/
  | levelAboveHeight
  /-- A link was to be made to a slot that no link can name. -/
  | slotWithoutLink
  /-- A node was to be linked whose deletion is committed. -/
  | linkOfDeleted
  /-- A node was to be linked at a level for which no predecessor was kept. -/
  | levelWithoutPredecessor
  /-- A link or a word changed between reading it and replacing it. Only a second party acting on
  the same nodes at the same time could change it. -/
  | interference
  /-- A loop did not end within its bound. -/
  | unfinished
deriving DecidableEq, Repr

/-! ### Operations -/

/-- An operation on a state. -/
abbrev Operation (State Answer : Type) : Type := StateT State (Except Fault) Answer

namespace Operation

variable {State Part Answer : Type}

/-- Stop with a fault. -/
def stop (fault : Fault) : Operation State Answer := fun _ => .error fault

/-- Read something off the state. -/
def reading (read : State → Except Fault Answer) : Operation State Answer := fun state =>
  match read state with
  | .ok answer => .ok (answer, state)
  | .error fault => .error fault

/-- Change the state. -/
def updating (update : State → State) : Operation State Unit := fun state =>
  .ok ((), update state)

/-- Operate on a part of the state. -/
def within (part : State → Part) (replace : State → Part → State)
    (operation : Operation Part Answer) : Operation State Answer := fun state =>
  match operation (part state) with
  | .ok (answer, changed) => .ok (answer, replace state changed)
  | .error fault => .error fault

/-- An operation that depends on the state in which it starts. -/
def onStart (operation : State → Operation State Answer) : Operation State Answer := fun state =>
  operation state state

end Operation

end PooledContainers
