/-
The operations of a sorted list: insert, removal by key, removal of the smallest entry, and the
list of its entries. An insert becomes visible with the one link that it swings, and a removal with
the one mark that it sets; all else is preparation or tidying.
-/

import PooledContainers.SortedList.Search

namespace PooledContainers

namespace SortedList

open Pool

/-! ### Insert -/

/-- Link a fresh node with a key, or give it up if the key is there. The answer tells whether the
node was linked; the allocation's count then belongs to the link to the node. -/
def linkFresh (node : Nat) (key : Int64) : Walk Bool := do
  let (prev, next) ← search key
  let present ← hasKey next key
  if present then do
    releaseAll [next, prev, node]
    pure false
  else do
    let behind ← linkTo next
    setLink node 0 behind
    let own ← linkTo node
    let linked ← swapLink prev 0 behind own
    if linked then do
      releaseAll [next, prev]
      pure true
    else Operation.stop .interference

/-- Fill a fresh node and link it, if its key is not there. -/
def placeFresh (node : Nat) (key : Int64) (word : UInt64) : Walk Bool := do
  changeBody node fun _ => ⟨key, word⟩
  linkFresh node key

/-- Insert a payload under a key. A misaligned payload is refused first, then a list without a free
node, even if the key is there; otherwise a key that is there keeps its entry. -/
def insert (key : Int64) (payload : UInt64) : Operation SortedList InsertOutcome :=
  match alignedWord payload with
  | .error error => pure (.error error)
  | .ok word => do
    let allocated ← onNodes allocate
    match allocated with
    | .error _ => Operation.reading fun list => .ok (.error (.full list.capacity.toNat))
    | .ok node => do
      let linked ← onNodes (placeFresh node key word)
      if linked then do
        adjustBalance 1
        pure (.ok .inserted)
      else pure (.ok (.duplicate payload))

/-! ### Removal -/

/-- Complete a removal that is owned. -/
def completeRemoval (prev node : Nat) : Operation SortedList Unit := do
  onNodes (complete prev node)
  adjustBalance (-1)

/-- Remove a held node that is not marked, behind its predecessor: its entry. -/
def remove (prev node : Nat) : Operation SortedList (Int64 × UInt64) := do
  let owned ← onNodes (mark node)
  if owned then do
    let entry ← onNodes (bodyAt node)
    completeRemoval prev node
    pure (entry.key, entry.payload)
  else Operation.stop .interference

/-- Remove the entry with a key: its payload. -/
def extract (key : Int64) : Operation SortedList (Option UInt64) := do
  let (prev, node) ← onNodes (search key)
  let present ← onNodes (hasKey node key)
  if present then do
    let entry ← remove prev node
    pure (some entry.2)
  else do
    onNodes (releaseAll [node, prev])
    pure none

/-- The first node behind the head that is live, or the tail, held along with the head. Marked nodes
in front of it are taken off the list, so that the number of nodes bounds the steps. -/
def firstLive : Nat → Walk Nat
  | 0 => Operation.stop .unfinished
  | steps + 1 => do
    retain headSlot
    let first ← followFrom headSlot
    match first with
    | none => Operation.stop .interference
    | some first =>
      if first = tailSlot then pure first
      else do
        let link ← linkAt first 0
        if link.isMarked then do
          let _ ← unlink headSlot first
          releaseAll [first, headSlot]
          firstLive steps
        else pure first

/-- Remove the entry with the smallest key. -/
def extractMin : Operation SortedList (Option (Int64 × UInt64)) := do
  let first ← onNodes (Operation.onStart fun pool => firstLive pool.size)
  if first = tailSlot then do
    onNodes (releaseAll [first, headSlot])
    pure none
  else do
    let still ← onNodes (pointsTo headSlot 0 first)
    if still then do
      let entry ← remove headSlot first
      pure (some entry)
    else Operation.stop .interference

/-! ### Entries -/

/-- The live entries in the order of their keys. Marked nodes may be taken off the list. -/
def entries : Operation SortedList (List (Int64 × UInt64)) := onNodes allEntries

instance : OrderedContainer SortedList where
  Key := Int64
  ofCapacity := ofCapacity
  insert key payload _ := insert key payload
  extractMin := extractMin
  length := length
  capacity := capacity
  available := available

end SortedList

end PooledContainers
