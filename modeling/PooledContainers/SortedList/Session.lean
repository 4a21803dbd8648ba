/-
A sorted list at work. Besides the whole operations, a session can take a removal apart into its
stages and leave it half done while other operations meet it: search and keep both nodes, mark the
node, take it off the list, complete the removal. A handle is the pair of held nodes that a search
answered, and whether it owns the removal of the second.
-/

import PooledContainers.Session
import PooledContainers.SortedList.Operations

namespace PooledContainers

namespace SortedList

/-! ### What is asked and answered -/

/-- The two nodes that a search answered, each held by a count of the handle. -/
structure Handle where
  /-- The predecessor. -/
  prev : Nat
  /-- The node found. -/
  node : Nat
  /-- Whether this handle set the mark of the node found. -/
  owner : Bool

/-- What a session can be asked. -/
inductive Step where
  /-- Insert a payload under a key. -/
  | insert (key : Int64) (payload : UInt64)
  /-- Remove the smallest entry. -/
  | extractMin
  /-- Remove the entry with a key. -/
  | extract (key : Int64)
  /-- List the live entries. -/
  | entries
  /-- The figures of the list. -/
  | figures
  /-- The text of the list. -/
  | describe
  /-- Search for a key and keep what was found under a name. -/
  | search (name : String) (key : Int64)
  /-- Mark the node of a handle. -/
  | mark (name : String)
  /-- Take the marked node of a handle off the list. -/
  | unlink (name : String)
  /-- Complete the removal that a handle owns. -/
  | complete (name : String)
  /-- Give up a handle. -/
  | release (name : String)

/-- The figures of a list. -/
structure Figures where
  /-- The number of entries. -/
  length : Nat
  /-- Whether there are none. -/
  isEmpty : Bool
  /-- The number of entries that fit. -/
  capacity : UInt64
  /-- The number of free nodes. -/
  available : Nat

/-- What a session answers. -/
inductive Answer where
  /-- What became of an insert. -/
  | insertion (outcome : InsertOutcome)
  /-- An entry, or none. -/
  | entry (found : Option (Int64 × UInt64))
  /-- A payload, or none. -/
  | payload (found : Option UInt64)
  /-- Entries in order. -/
  | entries (all : List (Int64 × UInt64))
  /-- Figures. -/
  | figures (figures : Figures)
  /-- A text. -/
  | text (value : String)
  /-- The two nodes that a search found. -/
  | position (prev node : NodeName Int64)
  /-- Yes or no. -/
  | flag (value : Bool)
  /-- The step was refused. -/
  | refused (reason : Refusal)
  /-- Nothing to tell. -/
  | done

/-! ### Taking steps -/

/-- The figures of a list. -/
def figures (list : SortedList) : Except Fault Figures :=
  list.available.map fun available => ⟨list.length, list.isEmpty, list.capacity, available⟩

/-- Give up the counts of a handle. -/
def giveUp (handle : Handle) : Operation SortedList Unit :=
  onNodes (Pool.releaseAll [handle.prev, handle.node])

open Session

/-- Search for a key and keep what was found. -/
def takeSearch (name : String) (key : Int64) : Operation (Session SortedList Handle) Answer := do
  let (prev, node) ← act (onNodes (search key))
  let prevName ← act (onNodes (nameOf Entry.key prev))
  let nodeName ← act (onNodes (nameOf Entry.key node))
  keep giveUp name ⟨prev, node, false⟩
  pure (.position prevName nodeName)

/-- Mark the node of a handle. -/
def takeMark (name : String) (handle : Handle) : Operation (Session SortedList Handle) Answer :=
  if handle.node = tailSlot then pure (.refused .sentinel)
  else do
    let owned ← act (onNodes (mark handle.node))
    if owned then do
      put name { handle with owner := true }
      pure (.flag true)
    else pure (.flag false)

/-- Take the node of a handle off the list, as one who helps. -/
def takeUnlink (handle : Handle) : Operation (Session SortedList Handle) Answer :=
  if handle.node = tailSlot then pure (.refused .sentinel)
  else do
    let link ← act (onNodes (Pool.linkAt handle.node 0))
    if link.isMarked then do
      let unlinked ← act (onNodes (unlink handle.prev handle.node))
      pure (.flag unlinked)
    else pure (.refused .notMarked)

/-- Complete the removal that a handle owns, which uses the handle up. -/
def takeComplete (name : String) (handle : Handle) :
    Operation (Session SortedList Handle) Answer :=
  if handle.owner then do
    let entry ← act (onNodes (Pool.bodyAt handle.node))
    forget name
    act (completeRemoval handle.prev handle.node)
    pure (.payload (some entry.payload))
  else pure (.refused .notOwner)

/-- Take one step. -/
def take : Step → Operation (Session SortedList Handle) Answer
  | .insert key payload => do
    let outcome ← act (insert key payload)
    pure (.insertion outcome)
  | .extractMin => do
    let found ← act extractMin
    pure (.entry found)
  | .extract key => do
    let found ← act (extract key)
    pure (.payload found)
  | .entries => do
    let all ← act entries
    pure (.entries all)
  | .figures => do
    let figures ← Session.reading SortedList.figures
    pure (.figures figures)
  | .describe => Session.reading fun list => .ok (.text list.describe)
  | .search name key => takeSearch name key
  | .mark name => withHandle .refused name (takeMark name)
  | .unlink name => withHandle .refused name takeUnlink
  | .complete name => withHandle .refused name (takeComplete name)
  | .release name => withHandle .refused name fun handle => do
    forget name
    act (giveUp handle)
    pure .done

end SortedList

end PooledContainers
