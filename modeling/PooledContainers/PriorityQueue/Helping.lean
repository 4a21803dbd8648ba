/-
How a priority queue is walked. A walk that stands on a node whose deletion is committed, or whose
link at the level is marked, first finishes that deletion at that level: it marks the node's links
from the level up, finds a predecessor, takes the node off the level, and goes on from the
predecessor. Finding the predecessor is a walk itself and may meet further deletions.

The walks are therefore written against a helper that they call for a node in their way, and the
helper is built from the walks, one layer over another. A helper walks towards its own node's key
only, so that few layers are needed; as a definition, the number of layers and the number of steps
in each loop are bounded by a number computed from the size of the pool.
-/

import PooledContainers.PriorityQueue.Basic

namespace PooledContainers

namespace PriorityQueue

open Pool

/-! ### Links that a node reaches -/

/-- Stop unless a node reaches a level. A node has a link for every level, but those above its
height are not in use. -/
def requireLevel (node level : Nat) : Walk Unit := do
  let entry ← bodyAt node
  if level < entry.height then pure () else Operation.stop .levelAboveHeight

/-- The link of a node at a level that it reaches. -/
def linkAt (node level : Nat) : Walk Link := do
  requireLevel node level
  Pool.linkAt node level

/-- Store the link of a node at a level that it reaches. -/
def setLink (node level : Nat) (link : Link) : Walk Unit := do
  requireLevel node level
  Pool.setLink node level link

/-- Replace the link of a node at a level that it reaches, if it is still the expected one: whether
it was. -/
def swapLink (node level : Nat) (expected replacement : Link) : Walk Bool := do
  requireLevel node level
  Pool.swapLink node level expected replacement

/-- Set the mark of the link of a node at a level that it reaches: whether this call set it. -/
def markLink (node level : Nat) : Walk Bool := do
  requireLevel node level
  Pool.markLink node level

/-! ### Reading and changing single nodes -/

/-- Whether a node stands strictly before a key. -/
def standsBefore (node : Nat) (key : UInt64) : Walk Bool :=
  if node = tailSlot then pure false
  else do
    let entry ← bodyAt node
    pure (entry.key < key)

/-- Whether a node is an entry with a key. -/
def hasKey (node : Nat) (key : UInt64) : Walk Bool :=
  if node = tailSlot then pure false
  else do
    let entry ← bodyAt node
    pure (entry.key == key)

/-- Whether the deletion of a node is committed. -/
def isDeleted (node : Nat) : Walk Bool := do
  let entry ← bodyAt node
  pure entry.datum.isDeleted

/-- Mark a number of links of a node upwards from a level: for each, whether this call marked it. -/
def markLinks (node : Nat) : (level count : Nat) → Walk (List Bool)
  | _, 0 => pure []
  | level, count + 1 => do
    let marked ← markLink node level
    let above ← markLinks node (level + 1) count
    pure (marked :: above)

/-- Swing the link of a predecessor past a marked node, and leave the node's link cleared. -/
def swingPast (node prev level : Nat) (link : Link) : Walk Nat := do
  let own ← linkTo node
  let swapped ← swapLink prev level own (link.setMark false)
  if swapped then do
    setLink node level Link.cleared
    pure prev
  else Operation.stop .interference

/-! ### Walks against a helper -/

/-- How a walk deals with a deletion in its way. -/
structure Helping where
  /-- Finish the deletion of a held node at a level. The node is given up, and a predecessor to go
  on from is held instead. -/
  help : (node : Nat) → (level : Nat) → Walk Nat
  /-- No loop takes more steps than this. -/
  bound : Nat

namespace Helping

variable (helping : Helping)

/-- Exchange a held node for the predecessor that helping it gives. The node is held until help is
done. -/
def stepBack (node level : Nat) : Walk Nat := do
  retain node
  let prev ← helping.help node level
  release node
  pure prev

/-- Follow the link of a held node at a level, stepping back as often as it cannot be followed: the
node from which it was followed, and the successor. -/
def followOrStepBack (level : Nat) : Nat → Nat → Walk (Nat × Nat)
  | 0, _ => Operation.stop .unfinished
  | tries + 1, node => do
    let link ← linkAt node level
    let next ← follow link
    match next with
    | some next => pure (node, next)
    | none => do
      let prev ← helping.stepBack node level
      followOrStepBack level tries prev

/-- The successor of a held node at a level. A node that is being deleted is exchanged for a
predecessor first. -/
def successor (node level : Nat) : Walk (Nat × Nat) := do
  let deleted ← isDeleted node
  if deleted then do
    let prev ← helping.stepBack node level
    helping.followOrStepBack level helping.bound prev
  else helping.followOrStepBack level helping.bound node

/-- Go on along a level from a held node and its successor, up to a key. -/
def seekFrom (level : Nat) (key : UInt64) : Nat → (prev next : Nat) → Walk (Nat × Nat)
  | 0, _, _ => Operation.stop .unfinished
  | steps + 1, prev, next => do
    let before ← standsBefore next key
    if before then do
      release prev
      let (prev, next) ← helping.successor next level
      seekFrom level key steps prev next
    else pure (prev, next)

/-- Advance a held node along a level while its successor stands before a key: where it ends, and
its successor there. -/
def seek (prev level : Nat) (key : UInt64) : Walk (Nat × Nat) := do
  let (prev, next) ← helping.successor prev level
  helping.seekFrom level key helping.bound prev next

/-- Seek a key on so many levels from a bottom level up, the highest first, each from where the one
above it ended. -/
def descend (bottom : Nat) (key : UInt64) : Nat → Nat → Walk Nat
  | 0, prev => pure prev
  | count + 1, prev => do
    let (prev, next) ← helping.seek prev (bottom + count) key
    release next
    descend bottom key count prev

/-- The first node at level 0 whose key is not below a key, or the tail, behind the node from which
it was read. -/
def seekFromHead (maxHeight : Nat) (key : UInt64) : Walk (Nat × Nat) := do
  retain headSlot
  let prev ← helping.descend 1 key (maxHeight - 1) headSlot
  helping.seek prev 0 key

/-- The first node at level 0 whose key is not below a key, or the tail. -/
def firstFrom (maxHeight : Nat) (key : UInt64) : Walk Nat := do
  let (prev, next) ← helping.seekFromHead maxHeight key
  release prev
  pure next

/-! ### Taking a node off a level -/

/-- Go on behind a held cursor and its successor through nodes with a key, up to a node. -/
def passEqual (node level : Nat) (key : UInt64) :
    Nat → (cursor next : Nat) → Walk (Nat × Nat)
  | 0, _, _ => Operation.stop .unfinished
  | steps + 1, cursor, next => do
    let equal ← hasKey next key
    if equal && next != node then do
      release cursor
      let (cursor, next) ← helping.successor next level
      passEqual node level key steps cursor next
    else pure (cursor, next)

/-- Look for a node at a level behind a held predecessor whose successor is another node with its
key: whether it is still linked there, and then its predecessor. -/
def locateBehind (node prev next level : Nat) (key : UInt64) : Walk (Nat × Bool) := do
  retain prev
  let (cursor, behind) ← helping.successor prev level
  release next
  let (cursor, found) ← helping.passEqual node level key helping.bound cursor behind
  if found = node then do
    releaseAll [prev, found]
    pure (cursor, true)
  else do
    releaseAll [cursor, found]
    pure (prev, false)

/-- Look for a node at a level from a held node in front of it: whether it is still linked there,
and then its predecessor. Newer nodes with the same key may stand in front of it, so a first node
with the key that is another one is looked behind. -/
def locate (node prev level : Nat) : Walk (Nat × Bool) := do
  let own ← bodyAt node
  let (prev, next) ← helping.seek prev level own.key
  if next = node then do
    release next
    pure (prev, true)
  else do
    let equal ← hasKey next own.key
    if equal then helping.locateBehind node prev next level own.key
    else do
      release next
      pure (prev, false)

/-- Take a node with a marked link off a level, starting from a held node in front of it: where the
walk ended. A cleared link says that the level is done. -/
def bypass (node prev level : Nat) : Walk Nat := do
  let own ← bodyAt node
  if own.height ≤ level then Operation.stop .levelAboveHeight
  else do
    let link ← linkAt node level
    if link = Link.cleared then pure prev
    else do
      let (prev, linked) ← helping.locate node prev level
      let link ← linkAt node level
      if linked && link != Link.cleared then swingPast node prev level link
      else pure prev

/-- Take a node off so many of its bottom levels, from the highest down, each from where the one
above it ended. -/
def bypassLevels (node : Nat) : Nat → Nat → Walk Nat
  | 0, prev => pure prev
  | count + 1, prev => do
    let prev ← helping.bypass node prev count
    bypassLevels node count prev

/-! ### One layer of help -/

/-- A held predecessor to start from that is found from the head. -/
def predecessorFromHead (maxHeight node level : Nat) : Walk Nat := do
  let own ← bodyAt node
  retain headSlot
  helping.descend level own.key (maxHeight - level) headSlot

/-- A held predecessor from which to look for a committed node at a level: the one that its
reference back names, if that reaches the level, and otherwise one found from the head. -/
def predecessor (maxHeight node level : Nat) : Walk Nat := do
  let found ← nodeAt node
  match found.back? with
  | some hint => do
    let entry ← bodyAt hint
    if level < entry.validHeight then do
      retain hint
      pure hint
    else helping.predecessorFromHead maxHeight node level
  | none => helping.predecessorFromHead maxHeight node level

/-- Finish the deletion of a held node at a level with the help of a helper for nodes in the way.
The node is given up, and the predecessor at which this ended is held. -/
def finishAt (maxHeight node level : Nat) : Walk Nat := do
  let own ← bodyAt node
  if own.height ≤ level then Operation.stop .levelAboveHeight
  else do
    let _ ← markLinks node level (own.height - level)
    let prev ← helping.predecessor maxHeight node level
    let prev ← helping.bypass node prev level
    release node
    pure prev

end Helping

/-! ### The helper -/

/-- The helper of so many layers. -/
def helpLayers (maxHeight bound : Nat) : Nat → (node : Nat) → (level : Nat) → Walk Nat
  | 0, _, _ => Operation.stop .unfinished
  | layers + 1, node, level =>
    Helping.finishAt ⟨helpLayers maxHeight bound layers, bound⟩ maxHeight node level

/-- A bound on the layers of help and on the steps of each loop, for a pool of a size. A step
forward passes a node, and a step back takes one off a level or marks a link; both can happen only
so often. -/
def walkBound (size : Nat) : Nat := 64 * ((size + 1) * (size + 1))

/-- How walks help when help is nested no deeper, and no loop takes more steps, than a limit. -/
def helpingWithin (limit maxHeight : Nat) : Helping := ⟨helpLayers maxHeight limit limit, limit⟩

/-- How walks help, for a number of levels and a size of the pool. -/
def helpingFor (maxHeight size : Nat) : Helping := helpingWithin (walkBound size) maxHeight

/-- Walk the nodes of a queue, with its number of levels, within a limit that depends on the size of
the pool. -/
def onLevels {Answer : Type} (limit : Nat → Nat)
    (walk : (helping : Helping) → (maxHeight : Nat) → Walk Answer) :
    Operation PriorityQueue Answer :=
  Operation.onStart fun queue =>
    onNodes (walk (helpingWithin (limit queue.pool.size) queue.maxHeight) queue.maxHeight)

end PriorityQueue

end PooledContainers
