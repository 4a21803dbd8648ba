/-
What can be done with a pool: reading and writing nodes and links, taking and giving up counts,
following a link, and allocating. Every count that is taken is given up by an action of its own, so
that the counters can be followed step by step.
-/

import PooledContainers.Pool.Basic

namespace PooledContainers

namespace Pool

variable {levels : Nat} {Body : Type}

/-- A change of a pool that has an answer or stops with a fault. -/
abbrev Action (levels : Nat) (Body Answer : Type) : Type :=
  Operation (Pool levels Body) Answer

/-! ### Nodes and links -/

/-- The node of a slot. -/
def nodeAt (slot : Nat) : Action levels Body (Node levels Body) := fun pool =>
  match pool.node? slot with
  | some node => .ok (node, pool)
  | none => .error .outOfRange

/-- The body of a slot's node. -/
def bodyAt (slot : Nat) : Action levels Body Body := fun pool =>
  match pool.node? slot with
  | some node => .ok (node.body, pool)
  | none => .error .outOfRange

/-- Change the node of a slot. -/
def change (slot : Nat) (update : Node levels Body → Node levels Body) :
    Action levels Body Unit := fun pool =>
  if slot < pool.size then .ok ((), pool.modify slot update) else .error .outOfRange

/-- Change the body of a slot's node. -/
def changeBody (slot : Nat) (update : Body → Body) : Action levels Body Unit :=
  change slot fun node => { node with body := update node.body }

/-- The link of a slot at a level. -/
def linkAt (slot level : Nat) : Action levels Body Link := fun pool =>
  match pool.link? slot level with
  | some link => .ok (link, pool)
  | none => .error .outOfRange

/-- Store a link of a slot at a level. -/
def setLink (slot level : Nat) (link : Link) : Action levels Body Unit := fun pool =>
  match pool.link? slot level with
  | some _ => .ok ((), pool.modify slot (·.setLink level link))
  | none => .error .outOfRange

/-- The unmarked link to a slot, which has to be one that a link can name. -/
def linkTo (slot : Nat) : Action levels Body Link :=
  if slot < Link.slotLimit then pure (Link.ofSlot slot) else Operation.stop .slotWithoutLink

/-- Whether a link of a slot is the unmarked link to a target. -/
def pointsTo (slot level target : Nat) : Action levels Body Bool := do
  let link ← linkAt slot level
  let _ ← linkTo target
  pure (link.pointsTo target)

/-- Replace a link of a slot if it is still the expected one: whether it was. -/
def swapLink (slot level : Nat) (expected replacement : Link) :
    Action levels Body Bool := do
  let found ← linkAt slot level
  if found = expected then do
    setLink slot level replacement
    pure true
  else pure false

/-- Set the mark of a link of a slot: whether this call set it. -/
def markLink (slot level : Nat) : Action levels Body Bool := do
  let found ← linkAt slot level
  if found.isMarked then pure false
  else do
    let swapped ← swapLink slot level found (found.setMark true)
    if swapped then pure true else Operation.stop .interference

/-- The reference back of a slot's node; kinds of node without one are out of range. -/
def backAt (slot : Nat) : Action levels Body Link := fun pool =>
  match (pool.node? slot).bind Node.back with
  | some link => .ok (link, pool)
  | none => .error .outOfRange

/-- Store the reference back of a slot's node. -/
def setBack (slot : Nat) (link : Link) : Action levels Body Unit :=
  change slot (·.setBack link)

/-! ### Counts -/

/-- Take one more count on a slot. -/
def retain (slot : Nat) : Action levels Body Unit :=
  change slot fun node => node.setCounter (node.counter + 2)

/-- Give up one count on a slot: whether it was the last, which claims the node. The last count
does not leave a counter of zero: it goes straight from two to one, the counter of a claimed node,
so that nobody can revive the node in between. -/
def surrender (slot : Nat) : Action levels Body Bool := do
  let node ← nodeAt slot
  if node.counter < 2 then Operation.stop .releaseWithoutCount
  else if node.counter = 2 then do
    change slot (·.setCounter 1)
    pure true
  else do
    change slot (·.setCounter (node.counter - 2))
    pure false

/-- Let the free list start elsewhere if it still starts where it is expected to: whether it did. -/
def swapFreeHead (expected replacement : Link) : Action levels Body Bool := fun pool =>
  if pool.freeHead = expected then .ok (true, { pool with freeHead := replacement })
  else .ok (false, pool)

/-- Put a claimed node onto the free list: the slot that its reference back named, whose count is
now to be given up as well. -/
def reclaim (slot : Nat) : Action levels Body (Option Nat) := do
  let node ← nodeAt slot
  let head ← Operation.reading fun pool => .ok pool.freeHead
  change slot (·.freed head)
  let own ← linkTo slot
  let swapped ← swapFreeHead head own
  if swapped then pure node.back? else Operation.stop .interference

/-- Give up one count on a slot; a node that loses its last count is reclaimed, and then the count
that it held on another node is given up in turn. The number bounds the nodes visited. -/
def releaseChain : Nat → Nat → Action levels Body Unit
  | 0, _ => Operation.stop .unfinished
  | bound + 1, slot => do
    let claimed ← surrender slot
    if claimed then do
      let next ← reclaim slot
      match next with
      | none => pure ()
      | some next => releaseChain bound next
    else pure ()

/-- Give up one count on a slot. A node is reclaimed at most once, so the size of the pool bounds
how far this reaches. -/
def release (slot : Nat) : Action levels Body Unit :=
  Operation.onStart fun pool => releaseChain (pool.size + 1) slot

/-- Give up a count on each of some slots. -/
def releaseAll : List Nat → Action levels Body Unit
  | [] => pure ()
  | slot :: rest => do
    release slot
    releaseAll rest

/-- The slots of one list, and then those of another. -/
theorem releaseAll_append (first second : List Nat) :
    (releaseAll (first ++ second) : Action levels Body Unit) =
      releaseAll first >>= fun _ => releaseAll second := by
  induction first with
  | nil => exact (pure_bind () fun _ => releaseAll second).symm
  | cons slot rest inductionHypothesis =>
    show (release slot >>= fun _ => releaseAll (rest ++ second)) =
      (release slot >>= fun _ => releaseAll rest) >>= fun _ => releaseAll second
    rw [inductionHypothesis, bind_assoc]

/-- Take a count on the node that an unmarked link names. A marked link, or one that names no
node, gives nothing. -/
def follow (link : Link) : Action levels Body (Option Nat) :=
  if link.isMarked then pure none
  else match link.slot? with
    | none => pure none
    | some slot => do
      retain slot
      pure (some slot)

/-- Whether the node of a slot is live. -/
def isLive (slot : Nat) : Action levels Body Bool := do
  let node ← nodeAt slot
  pure (node.counter % 2 == 0)

/-! ### Allocation -/

/-- Take the claim of a node that leaves the free list off its counter. -/
def unclaim (slot : Nat) : Action levels Body Unit := do
  let node ← nodeAt slot
  if node.counter % 2 = 0 then Operation.stop .allocationOfLiveNode
  else change slot (·.setCounter (node.counter - 1))

/-- Take the first node off the free list. The slot comes with one count, its node with nil
links. -/
def allocate : Action levels Body (Except PoolError Nat) := do
  let head ← Operation.reading fun pool => .ok pool.freeHead
  let first ← follow head
  match first with
  | none => Operation.reading fun pool => .ok (.error (.exhausted pool.size))
  | some slot => do
    let next ← linkAt slot 0
    let own ← linkTo slot
    let swapped ← swapFreeHead own next
    if swapped then do
      unclaim slot
      setLink slot 0 Link.nil
      pure (.ok slot)
    else Operation.stop .interference

end Pool

end PooledContainers
