/-
How a sorted list is walked. A search goes from the head to the first live node that does not
precede a key, and takes every marked node that it meets off the list. The two nodes that it
answers come with one count each, and every count that it takes on the way is given up again.
-/

import PooledContainers.SortedList.Basic

namespace PooledContainers

namespace SortedList

open Pool

/-! ### Stages of a removal -/

/-- Set the delete mark of a node: whether this call set it, and so owns the removal. -/
def mark (node : Nat) : Walk Bool := markLink node 0

/-- Take a marked node off the list behind its predecessor: whether the predecessor still pointed
to it. It does not if it was itself deleted, or if the node is already off the list. -/
def unlink (prev node : Nat) : Walk Bool := do
  let next ← linkAt node 0
  if next.isMarked then do
    let own ← linkTo node
    let swapped ← swapLink prev 0 own (next.setMark false)
    if swapped then do
      setLink node 0 Link.cleared
      pure true
    else pure false
  else Operation.stop .unlinkOfUnmarked

/-! ### Searching -/

/-- Take a count on the node behind a held one, if its link can be followed. -/
def followFrom (node : Nat) : Walk (Option Nat) := do
  let link ← linkAt node 0
  follow link

/-- Take a marked node off the list behind the predecessor from which it was read, give up its
count, and take one on the node that stands there now. -/
def replaceMarked (prev node : Nat) : Walk Nat := do
  let unlinked ← unlink prev node
  if unlinked then do
    let next ← followFrom prev
    match next with
    | some next => do
      release node
      pure next
    | none => Operation.stop .interference
  else Operation.stop .interference

/-- Go on with a search at a node read from its predecessor, both of them held. Each step passes a
node or takes one off the list, so that the number of nodes bounds the steps. -/
def searchFrom (key : Int64) : Nat → (prev node : Nat) → Walk (Nat × Nat)
  | 0, _, _ => Operation.stop .unfinished
  | steps + 1, prev, node => do
    if node = tailSlot then pure (prev, node)
    else do
      let link ← linkAt node 0
      if link.isMarked then do
        let next ← replaceMarked prev node
        searchFrom key steps prev next
      else do
        let next ← follow link
        match next with
        | none => Operation.stop .interference
        | some next => do
          let entry ← bodyAt node
          if key ≤ entry.key then do
            release next
            pure (prev, node)
          else do
            release prev
            searchFrom key steps node next

/-- The first live node whose key is not below a key, or the tail, behind its live predecessor.
Both are held. -/
def search (key : Int64) : Walk (Nat × Nat) := do
  retain headSlot
  let first ← followFrom headSlot
  match first with
  | none => Operation.stop .interference
  | some first => Operation.onStart fun pool => searchFrom key pool.size headSlot first

/-- Whether a node is an entry with a key. -/
def hasKey (node : Nat) (key : Int64) : Walk Bool :=
  if node = tailSlot then pure false
  else do
    let entry ← bodyAt node
    pure (entry.key == key)

/-- Complete a removal that is owned: see that the node is off the list, and give up the count of
the link to it as well as both handles. If the predecessor no longer points to the node, a fresh
search for the node's key passes its place and takes it off. -/
def complete (prev node : Nat) : Walk Unit := do
  let unlinked ← unlink prev node
  if unlinked then releaseAll [node, node, prev]
  else do
    release prev
    let entry ← bodyAt node
    let (before, behind) ← search entry.key
    releaseAll [before, behind, node, node]

/-! ### Walking through the entries -/

/-- The key after a key, if there is one. -/
def keyAfter? (key : Int64) : Option Int64 :=
  if key = Int64.maxValue then none else some (key + 1)

/-- The node at which a walk through the entries goes on behind a held node: its successor, or, if
the node is being removed, the first live node behind its key. The answer is held, and so is the
node still. -/
def nextOf (node : Nat) : Walk (Option Nat) := do
  let next ← followFrom node
  match next with
  | some next => pure (some next)
  | none => do
    let entry ← bodyAt node
    match keyAfter? entry.key with
    | none => pure none
    | some key => do
      let (before, next) ← search key
      release before
      pure (some next)

/-- The live entries behind a held node, which is given up. -/
def entriesFrom : Nat → Nat → Walk (List (Int64 × UInt64))
  | 0, _ => Operation.stop .unfinished
  | steps + 1, node => do
    let next ← nextOf node
    match next with
    | none => do
      release node
      pure []
    | some next =>
      if next = tailSlot then do
        releaseAll [next, node]
        pure []
      else do
        let link ← linkAt next 0
        let entry ← bodyAt next
        release node
        let rest ← entriesFrom steps next
        pure (if link.isMarked then rest else (entry.key, entry.payload) :: rest)

/-- The live entries in the order of their keys. Marked nodes are left out. -/
def allEntries : Walk (List (Int64 × UInt64)) := do
  retain headSlot
  Operation.onStart fun pool => entriesFrom pool.size headSlot

end SortedList

end PooledContainers
