/-
The runs of a list, and what it holds. Whether a removal is pending is not told by the nodes alone,
so it is kept beside the session; a step adds to it what its answer reveals.
-/

import PooledContainers.Proofs.Holdings
import PooledContainers.Proofs.Places
import PooledContainers.Proofs.Session
import PooledContainers.Proofs.SortedList.Ground
import PooledContainers.SortedList.Session

namespace PooledContainers

namespace SortedList

/-! ### What is in a list -/

/-- A slot holds a live entry: it is no sentinel, its counter carries no claim, and its link is not
marked. -/
def Live (pool : Pool 1 Entry) (slot : Nat) : Prop :=
  isSentinel slot = false ∧ slot < pool.size ∧ pool.counterOf slot % 2 = 0 ∧ ¬ Marked pool slot

instance (pool : Pool 1 Entry) (slot : Nat) : Decidable (Live pool slot) :=
  inferInstanceAs (Decidable (_ ∧ _ ∧ _ ∧ _))

/-- The live slots. -/
def liveSlots (pool : Pool 1 Entry) : List Nat :=
  (List.range pool.size).filter fun slot => decide (Live pool slot)

/-- What a list holds: the payload of the live node with a key. -/
def contents (list : SortedList) : Int64 → Option UInt64 :=
  Holdings.lookup (liveSlots list.pool) (keyOf list.pool) fun slot =>
    (list.pool.bodyOf slot).payload

/-- The live slot with a key, if there is one. -/
def liveSlot? (pool : Pool 1 Entry) (key : Int64) : Option Nat :=
  (liveSlots pool).find? fun slot => keyOf pool slot == key

/-! ### Handles -/

/-- The number of references that handles have to a slot, as the predecessor and as the node. -/
def handlesOn (handles : HandleTable Handle) (slot : Nat) : Nat :=
  handles.total fun handle => [handle.prev, handle.node].count slot

/-! ### Pending removals -/

/-- The pending removals without that of a slot, if there is one to be finished. -/
def finish? (pending : Nat → Bool) (slot? : Option Nat) : Nat → Bool :=
  slot?.elim pending (finish pending)

/-- The nodes that were linked by an insert and whose removal has not been finished, after a step.
An insert links the first free slot. The removals by key and of the smallest entry finish the live
node with the key, and a completed removal finishes the node of the handle that owns it. -/
def nextPending (pending : Nat → Bool) (session : Session SortedList Handle) :
    Step → Answer → Nat → Bool
  | .insert _ _, .insertion (.ok .inserted) =>
    session.subject.pool.freeHead.slot?.elim pending (await pending)
  | .extractMin, .entry (some entry) => finish? pending (liveSlot? session.subject.pool entry.1)
  | .extract key, .payload (some _) => finish? pending (liveSlot? session.subject.pool key)
  | .complete name, .payload _ => finish? pending ((session.handles.find? name).map Handle.node)
  | _, _ => pending

/-! ### Runs -/

/-- The sessions that a run gets to, with their pending removals: it starts from an empty list and
takes steps in any order. -/
inductive Reached (capacity : UInt64) : (Nat → Bool) → Session SortedList Handle → Prop
  | start [NodeKind 1 Entry] {list : SortedList} (made : ofCapacity capacity = .ok list) :
    Reached capacity (fun _ => false) (Session.start list)
  | step {pending : Nat → Bool} {session after : Session SortedList Handle} {step : Step}
      {answer : Answer} (reached : Reached capacity pending session)
      (taken : take step session = .ok (answer, after)) :
    Reached capacity (nextPending pending session step answer) after

/-- The session and the pending removals to which some steps lead. -/
def follow (pending : Nat → Bool) (session : Session SortedList Handle) :
    List Step → Option ((Nat → Bool) × Session SortedList Handle)
  | [] => some (pending, session)
  | step :: rest =>
    match take step session with
    | .ok (answer, after) => follow (nextPending pending session step answer) after rest
    | .error _ => none

/-- The session and the pending removals to which some steps lead from an empty list. -/
def followFromStart (capacity : UInt64) (steps : List Step) :
    Option ((Nat → Bool) × Session SortedList Handle) :=
  match ofCapacity capacity with
  | .ok list => follow (fun _ => false) (Session.start list) steps
  | .error _ => none

theorem Reached.follow {capacity : UInt64} {pending last : Nat → Bool}
    {session after : Session SortedList Handle} {steps : List Step}
    (reached : Reached capacity pending session)
    (followed : SortedList.follow pending session steps = some (last, after)) :
    Reached capacity last after := by
  induction steps generalizing pending session with
  | nil =>
    obtain ⟨rfl, rfl⟩ := Prod.mk.inj (Option.some.inj followed)
    exact reached
  | cons step rest inductionHypothesis =>
    unfold SortedList.follow at followed
    split at followed
    next answer middle taken => exact inductionHypothesis (Reached.step reached taken) followed
    next => exact absurd followed (by simp)

theorem Reached.of_steps {capacity : UInt64} {last : Nat → Bool}
    {after : Session SortedList Handle} {steps : List Step}
    (followed : followFromStart capacity steps = some (last, after)) :
    Reached capacity last after := by
  unfold followFromStart at followed
  split at followed
  next list made => exact (Reached.start made).follow followed
  next => exact absurd followed (by simp)

end SortedList

end PooledContainers
