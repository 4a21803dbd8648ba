/-
The operations of a priority queue: insert, removal of the smallest entry, a look at it, and the
list of the entries. An insert becomes visible with its link at level 0 and a removal with the mark
that it sets in a data word; the upper levels only make searches shorter.
-/

import PooledContainers.PriorityQueue.Helping

namespace PooledContainers

namespace PriorityQueue

open Pool

/-! ### Insert -/

/-- Seek a key on so many levels above level 0, the highest first, and take a further count on where
each search below a height ends. The first of the nodes kept is for level 1, the next for level 2,
and so on. -/
def descendKeeping (helping : Helping) (key : UInt64) (height : Nat) :
    Nat → Nat → List Nat → Walk (Nat × List Nat)
  | 0, prev, kept => pure (prev, kept)
  | count + 1, prev, kept => do
    let (prev, next) ← helping.seek prev (count + 1) key
    release next
    if count + 1 < height then do
      retain prev
      descendKeeping helping key height count prev (prev :: kept)
    else descendKeeping helping key height count prev kept

/-- Put a data word into a node in the place of the one that was read there. Stop if it is no longer
there. -/
def replaceDatum (node : Nat) (expected replacement : Datum) : Walk Unit := do
  let entry ← bodyAt node
  if entry.datum = expected then
    changeBody node fun entry => { entry with datum := replacement }
  else Operation.stop .interference

/-- Replace the payload of a node that is live and has a key: the one before. There is none if the
node has another key or its deletion is committed. -/
def replacePayload (node : Nat) (key word : UInt64) : Walk (Option UInt64) := do
  let present ← hasKey node key
  if present then do
    let entry ← bodyAt node
    if entry.datum.isDeleted then pure none
    else do
      replaceDatum node entry.datum ⟨word⟩
      pure (some entry.datum.word)
  else pure none

/-- Record how many bottom levels of a node are valid. -/
def setValidHeight (node height : Nat) : Walk Unit :=
  changeBody node fun entry => { entry with validHeight := height }

/-- Stop if the deletion of a node is committed, which only a second party can have done to a node
that is still being linked. -/
def requireLive (node : Nat) : Walk Unit := do
  let deleted ← isDeleted node
  if deleted then Operation.stop .linkOfDeleted else pure ()

/-- Swing the link of a predecessor at a level from its successor to a node that points to the
successor already. -/
def swingTo (node prev next level : Nat) : Walk Unit := do
  let behind ← linkTo next
  let own ← linkTo node
  let swapped ← swapLink prev level behind own
  if swapped then pure () else Operation.stop .interference

/-- Link a node at a level from a held node in front of it, which is given up. -/
def linkAbove (helping : Helping) (node prev level : Nat) (key : UInt64) : Walk Unit := do
  let (prev, next) ← helping.seek prev level key
  let behind ← linkTo next
  setLink node level behind
  requireLive node
  swingTo node prev next level
  requireLive node
  releaseAll [next, prev]

/-- Link a node at so many levels from a level up, each from the node kept for it. Before a level is
begun, the levels below it are recorded as valid. -/
def linkUpwards (helping : Helping) (node : Nat) (key : UInt64) :
    (level count : Nat) → List Nat → Walk Unit
  | _, 0, _ => pure ()
  | level, count + 1, kept => do
    setValidHeight node level
    match kept with
    | [] => Operation.stop .levelWithoutPredecessor
    | prev :: kept => do
      linkAbove helping node prev level key
      linkUpwards helping node key (level + 1) count kept

/-- Link a fresh node behind a held node at level 0 and then at its other levels. The allocation's
count passes to the link at level 0; a second one protects the node meanwhile and is given up. -/
def linkFresh (helping : Helping) (node prev next : Nat) (kept : List Nat) (key : UInt64)
    (height : Nat) : Walk Unit := do
  let behind ← linkTo next
  setLink node 0 behind
  swingTo node prev next 0
  releaseAll [next, prev]
  linkUpwards helping node key 1 (height - 1) kept
  setValidHeight node height
  requireLive node
  release node

/-- Fill a fresh node and put it into the queue, or give it up if its key is live and that entry's
payload is replaced instead: the payload replaced. -/
def placeFresh (helping : Helping) (maxHeight node : Nat) (key word : UInt64)
    (height : Nat) : Walk (Option UInt64) := do
  changeBody node fun _ => ⟨key, ⟨word⟩, height, 0⟩
  retain node
  retain headSlot
  let (prev, kept) ← descendKeeping helping key height (maxHeight - 1) headSlot []
  let (prev, next) ← helping.seek prev 0 key
  let previous ← replacePayload next key word
  match previous with
  | some previous => do
    releaseAll [next, prev]
    releaseAll kept
    releaseAll [node, node]
    pure (some previous)
  | none => do
    linkFresh helping node prev next kept key height
    pure none

/-- Insert a payload under a key, with the coins of its random draw. A misaligned payload is
refused first, then a queue without a free node, even if the key is there; otherwise the payload of
a live entry with the key is replaced, and without one a new entry is linked. The walks keep within
a limit. -/
def insertWithin (limit : Nat → Nat) (key payload : UInt64) (coins : Nat) :
    Operation PriorityQueue InsertOutcome :=
  match alignedWord payload with
  | .error error => pure (.error error)
  | .ok word => do
    let allocated ← onNodes allocate
    match allocated with
    | .error _ => Operation.reading fun queue => .ok (.error (.full queue.capacity.toNat))
    | .ok node => do
      let previous ← onLevels limit fun helping maxHeight =>
        placeFresh helping maxHeight node key word (drawHeight maxHeight coins)
      match previous with
      | some previous => pure (.ok (.replaced previous))
      | none => do
        adjustBalance 1
        pure (.ok .inserted)

/-- Insert a payload under a key, with the coins of its random draw. -/
def insert (key payload : UInt64) (coins : Nat) : Operation PriorityQueue InsertOutcome :=
  insertWithin walkBound key payload coins

/-! ### Removal of the smallest entry -/

/-- Commit the deletion of a node: whether this call committed it. -/
def commit (node : Nat) : Walk Bool := do
  let entry ← bodyAt node
  if entry.datum.isDeleted then pure false
  else do
    replaceDatum node entry.datum entry.datum.delete
    pure true

/-- Commit the deletion of the first live node, going on from a held predecessor at level 0 and
helping every committed node on the way. The node is held; its reference back names the
predecessor, with the count that was held on it. -/
def commitFirst (helping : Helping) : Nat → Nat → Walk (Option Nat)
  | 0, _ => Operation.stop .unfinished
  | steps + 1, prev => do
    let (prev, first) ← helping.successor prev 0
    if first = tailSlot then do
      releaseAll [first, prev]
      pure none
    else do
      let link ← linkAt prev 0
      if link.slot? = some first then do
        let committed ← commit first
        if committed then do
          let hint ← linkTo prev
          setBack first hint
          pure (some first)
        else do
          let earlier ← helping.help first 0
          release prev
          commitFirst helping steps earlier
      else Operation.stop .interference

/-- Commit the deletion of the first live node, starting from the head. -/
def commitMin (helping : Helping) : Walk (Option Nat) := do
  retain headSlot
  commitFirst helping helping.bound headSlot

/-- Take a committed node off every level, and give up the count of the link at level 0 as well as
the handle. -/
def completeRemoval (helping : Helping) (node : Nat) : Walk Unit := do
  let entry ← bodyAt node
  let _ ← markLinks node 0 entry.height
  retain headSlot
  let prev ← helping.bypassLevels node entry.height headSlot
  releaseAll [prev, node, node]

/-- Remove the entry with the smallest key, with the walks within a limit. -/
def extractMinWithin (limit : Nat → Nat) : Operation PriorityQueue (Option (UInt64 × UInt64)) := do
  let first ← onLevels limit fun helping _ => commitMin helping
  match first with
  | none => pure none
  | some first => do
    adjustBalance (-1)
    let entry ← onNodes (bodyAt first)
    onLevels limit fun helping _ => completeRemoval helping first
    pure (some (entry.key, entry.datum.payload))

/-- Remove the entry with the smallest key. -/
def extractMin : Operation PriorityQueue (Option (UInt64 × UInt64)) := extractMinWithin walkBound

/-! ### Looking at entries -/

/-- The entry of the first node at level 0, its mark ignored, so that an entry whose removal is
committed but not unlinked still shows. Nothing is changed. -/
def peek (queue : PriorityQueue) : Except Fault (Option (UInt64 × UInt64)) :=
  match queue.pool.link? headSlot 0 with
  | none => .error .outOfRange
  | some link =>
    match link.slot? with
    | none => .ok none
    | some first =>
      if first = tailSlot then .ok none
      else match queue.pool.node? first with
        | none => .error .outOfRange
        | some node => .ok (some (node.body.key, node.body.datum.payload))

/-- The key after a key, if there is one. -/
def keyAfter? (key : UInt64) : Option UInt64 :=
  if key = 18446744073709551615 then none else some (key + 1)

/-- The node at which a walk through the entries goes on behind a held node: its successor at level
0, or, if the node is being removed, the first node behind its key. The answer is held, and so is
the node still. -/
def nextOf (helping : Helping) (maxHeight node : Nat) : Walk (Option Nat) := do
  let link ← linkAt node 0
  let next ← follow link
  match next with
  | some next => pure (some next)
  | none => do
    let entry ← bodyAt node
    match keyAfter? entry.key with
    | none => pure none
    | some key => do
      let next ← helping.firstFrom maxHeight key
      pure (some next)

/-- The live entries behind a held node, which is given up. -/
def entriesFrom (helping : Helping) (maxHeight : Nat) :
    Nat → Nat → Walk (List (UInt64 × UInt64))
  | 0, _ => Operation.stop .unfinished
  | steps + 1, node => do
    let next ← nextOf helping maxHeight node
    match next with
    | none => do
      release node
      pure []
    | some next =>
      if next = tailSlot then do
        releaseAll [next, node]
        pure []
      else do
        let entry ← bodyAt next
        release node
        let rest ← entriesFrom helping maxHeight steps next
        pure (if entry.datum.isDeleted then rest
          else (entry.key, entry.datum.payload) :: rest)

/-- The live entries in the order of their keys, read off the nodes. -/
def allEntries (helping : Helping) (maxHeight : Nat) : Walk (List (UInt64 × UInt64)) := do
  retain headSlot
  entriesFrom helping maxHeight helping.bound headSlot

/-- The live entries in the order of their keys. Committed nodes are left out and may be taken off
the levels. The walks keep within a limit. -/
def entriesWithin (limit : Nat → Nat) : Operation PriorityQueue (List (UInt64 × UInt64)) :=
  onLevels limit allEntries

/-- The live entries in the order of their keys. -/
def entries : Operation PriorityQueue (List (UInt64 × UInt64)) := entriesWithin walkBound

instance : OrderedContainer PriorityQueue where
  Key := UInt64
  ofCapacity := ofCapacity
  insert := insert
  extractMin := extractMin
  length := length
  capacity := capacity
  available := available

end PriorityQueue

end PooledContainers
