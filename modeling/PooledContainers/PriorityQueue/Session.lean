/-
A priority queue at work. Besides the whole operations, a session can take a removal apart into its
stages and leave it half done while other operations meet it: hold a node, commit its deletion,
give it a hint, mark its links, take it off its levels one by one, and give back the count of its
link. The walks that help can be called one at a time as well. A handle is one held node, and
whether it owns the removal of that node.
-/

import PooledContainers.PriorityQueue.Operations
import PooledContainers.Session

namespace PooledContainers

namespace PriorityQueue

/-! ### What is asked and answered -/

/-- A node held by one count of the handle. -/
structure Handle where
  /-- The node. -/
  node : Nat
  /-- Whether this handle committed the deletion of the node. -/
  owner : Bool

/-- What a handle is to be put on. -/
inductive Target where
  /-- The head. -/
  | head
  /-- The first node at level 0 whose key is not below a key, or the tail. -/
  | firstFrom (key : UInt64)

/-- What a session can be asked. -/
inductive Step where
  /-- Insert a payload under a key, with the coins of the random draw. -/
  | insert (key payload : UInt64) (coins : Nat)
  /-- Remove the smallest entry. -/
  | extractMin
  /-- Look at the smallest entry. -/
  | peek
  /-- List the live entries. -/
  | entries
  /-- The figures of the queue. -/
  | figures
  /-- The text of the queue. -/
  | describe
  /-- The height that a draw gives. -/
  | draw (coins : Nat)
  /-- The nodes linked at each level. -/
  | levels
  /-- Find a node and hold it under a name. -/
  | hold (name : String) (target : Target)
  /-- Give up a handle. -/
  | release (name : String)
  /-- Show the node of a handle. -/
  | inspect (name : String)
  /-- Commit the deletion of a handle's node. -/
  | commit (name : String)
  /-- Let the reference back of a handle's node name the node of another handle. -/
  | hint (name predecessor : String)
  /-- Mark the links of a handle's node from a level up. -/
  | markLinks (name : String) (level : Nat)
  /-- Take a handle's node off a level, starting from the head. -/
  | bypass (name : String) (level : Nat)
  /-- Help the deletion of a handle's node at a level. -/
  | help (name : String) (level : Nat)
  /-- Read the successor of a handle's node at a level. -/
  | successor (name : String) (level : Nat)
  /-- Seek a key from a handle's node along a level. -/
  | seek (name : String) (level : Nat) (key : UInt64)
  /-- Complete the removal that a handle owns. -/
  | complete (name : String)

/-- The figures of a queue. -/
structure Figures where
  /-- The number of entries. -/
  length : Nat
  /-- Whether there are none. -/
  isEmpty : Bool
  /-- The number of entries that fit. -/
  capacity : UInt64
  /-- The number of free nodes. -/
  available : Nat
  /-- The number of levels in use. -/
  maxHeight : Nat

/-- A node met on a level. -/
structure Linked where
  /-- The key. -/
  key : UInt64
  /-- Whether the node's deletion is committed. -/
  deleted : Bool
  /-- Whether the node's link at the level is marked. -/
  marked : Bool

/-- What a session answers. -/
inductive Answer where
  /-- What became of an insert. -/
  | insertion (outcome : InsertOutcome)
  /-- An entry, or none. -/
  | entry (found : Option (UInt64 × UInt64))
  /-- A payload. -/
  | payload (found : UInt64)
  /-- Entries in order. -/
  | entries (all : List (UInt64 × UInt64))
  /-- Figures. -/
  | figures (figures : Figures)
  /-- A text. -/
  | text (value : String)
  /-- A height. -/
  | height (value : Nat)
  /-- The nodes of each level. -/
  | levels (all : List (List Linked))
  /-- The node held, and whether its deletion is committed. -/
  | held (node : NodeName UInt64) (deleted : Bool)
  /-- A node: its name, whether its deletion is committed, its height and its valid height. -/
  | node (name : NodeName UInt64) (deleted : Bool) (height validHeight : Nat)
  /-- Where a walk ended. -/
  | predecessor (node : NodeName UInt64)
  /-- Where a walk ended, and the successor there. -/
  | position (prev next : NodeName UInt64)
  /-- Yes or no. -/
  | flag (value : Bool)
  /-- Yes or no for each of several links. -/
  | flags (values : List Bool)
  /-- The step was refused. -/
  | refused (reason : Refusal)
  /-- Nothing to tell. -/
  | done

/-! ### Looking at a queue -/

/-- The figures of a queue. -/
def figures (queue : PriorityQueue) : Except Fault Figures :=
  queue.available.map fun available =>
    ⟨queue.length, queue.isEmpty, queue.capacity, available, queue.maxHeight⟩

/-- The nodes met from a link along a level, read without helping, up to the tail or a link that
names no node. -/
def linkedFrom (pool : Pool maxLevels Entry) (level : Nat) :
    Nat → Link → Except Fault (List Linked)
  | 0, _ => .error .unfinished
  | steps + 1, link =>
    match link.slot? with
    | none => .ok []
    | some slot =>
      if slot = tailSlot then .ok []
      else match pool.node? slot, pool.link? slot level with
        | some node, some next =>
          (linkedFrom pool level steps next).map
            (⟨node.body.key, node.body.datum.isDeleted, next.isMarked⟩ :: ·)
        | _, _ => .error .outOfRange

/-- The nodes linked at a level. -/
def linkedAt (queue : PriorityQueue) (level : Nat) : Except Fault (List Linked) :=
  match queue.pool.link? headSlot level with
  | some link => linkedFrom queue.pool level (queue.pool.size + 1) link
  | none => .error .outOfRange

/-- The nodes linked at each level, from the bottom up. -/
def linkedLevels (queue : PriorityQueue) : Except Fault (List (List Linked)) :=
  (List.range queue.maxHeight).mapM queue.linkedAt

/-! ### What a stage asks of its node -/

/-- What a stage at a level asks of its node, besides that it is not the tail and reaches the
level. -/
inductive Demand where
  /-- Nothing more. -/
  | reached
  /-- The deletion of the node is committed. -/
  | deleted
  /-- The deletion is committed and the link at the level is marked. -/
  | marked

/-- Why a stage at a level may not be taken on a node, if it may not. The first reason counts. -/
def refusal? (node level : Nat) (demand : Demand) : Walk (Option Refusal) :=
  if node = tailSlot then pure (some .sentinel)
  else do
    let entry ← Pool.bodyAt node
    if entry.height ≤ level then pure (some .level)
    else match demand with
      | .reached => pure none
      | .deleted => pure (if entry.datum.isDeleted then none else some .notDeleted)
      | .marked => do
        let link ← linkAt node level
        pure (
          if !entry.datum.isDeleted then some .notDeleted
          else if link.isMarked then none
          else some .notMarked)

/-! ### Stages on single nodes -/

/-- Give up the count of a handle. -/
def giveUp (handle : Handle) : Operation PriorityQueue Unit := onNodes (Pool.release handle.node)

/-- Show a held predecessor and give it up. -/
def showPredecessor (prev : Nat) : Walk Answer := do
  let name ← nameOf Entry.key prev
  Pool.release prev
  pure (.predecessor name)

/-- Show a held node and its held successor and give both up. -/
def showPosition (position : Nat × Nat) : Walk Answer := do
  let prev ← nameOf Entry.key position.1
  let next ← nameOf Entry.key position.2
  Pool.releaseAll [position.2, position.1]
  pure (.position prev next)

/-- Hold what a handle is to be put on. -/
def holdTarget (helping : Helping) (maxHeight : Nat) : Target → Walk Nat
  | .head => do
    Pool.retain headSlot
    pure headSlot
  | .firstFrom key => helping.firstFrom maxHeight key

/-- Let the reference back of a node name another node, with a count of its own, unless it names a
node already: whether it was let. -/
def giveHint (node predecessor : Nat) : Walk Bool := do
  let back ← Pool.backAt node
  if back.isNil then do
    Pool.retain predecessor
    let hint ← Pool.linkTo predecessor
    Pool.setBack node hint
    pure true
  else pure false

/-! ### Taking steps -/

open Session

/-- Hold a node under a name and show it. -/
def takeHold (limit : Nat → Nat) (name : String) (target : Target) :
    Operation (Session PriorityQueue Handle) Answer := do
  let node ← act (onLevels limit fun helping maxHeight => holdTarget helping maxHeight target)
  let shown ← act (onNodes (nameOf Entry.key node))
  let deleted ← act (onNodes (isDeleted node))
  keep giveUp name ⟨node, false⟩
  pure (.held shown deleted)

/-- Show the node of a handle. -/
def takeInspect (handle : Handle) : Operation (Session PriorityQueue Handle) Answer := do
  let shown ← act (onNodes (nameOf Entry.key handle.node))
  let entry ← act (onNodes (Pool.bodyAt handle.node))
  pure (.node shown entry.datum.isDeleted entry.height entry.validHeight)

/-- Commit the deletion of a handle's node. -/
def takeCommit (name : String) (handle : Handle) :
    Operation (Session PriorityQueue Handle) Answer :=
  if isSentinel handle.node then pure (.refused .sentinel)
  else do
    let committed ← act (onNodes (commit handle.node))
    if committed then do
      act (adjustBalance (-1))
      put name { handle with owner := true }
      pure (.flag true)
    else pure (.flag false)

/-- Give the node of a handle the node of another one as a hint. -/
def takeHint (handle predecessor : Handle) : Operation (Session PriorityQueue Handle) Answer :=
  if isSentinel handle.node || predecessor.node == tailSlot then pure (.refused .sentinel)
  else do
    let deleted ← act (onNodes (isDeleted handle.node))
    if deleted then do
      let given ← act (onNodes (giveHint handle.node predecessor.node))
      pure (.flag given)
    else pure (.refused .notDeleted)

/-- Take a stage at a level on the node of a handle, or refuse it. -/
def takeAt (limit : Nat → Nat) (name : String) (level : Nat) (demand : Demand)
    (stage : Helping → Nat → Walk Answer) : Operation (Session PriorityQueue Handle) Answer :=
  withHandle .refused name fun handle => do
    let refusal ← act (onNodes (refusal? handle.node level demand))
    match refusal with
    | some reason => pure (.refused reason)
    | none => act (onLevels limit fun helping _ => stage helping handle.node)

/-- Complete the removal that a handle owns, which uses the handle up. -/
def takeComplete (limit : Nat → Nat) (name : String) (handle : Handle) :
    Operation (Session PriorityQueue Handle) Answer :=
  if handle.owner then do
    let entry ← act (onNodes (Pool.bodyAt handle.node))
    forget name
    act (onLevels limit fun helping _ => completeRemoval helping handle.node)
    pure (.payload entry.datum.payload)
  else pure (.refused .notOwner)

/-- Take one step, with the walks within a limit that depends on the size of the pool. -/
def takeWithin (limit : Nat → Nat) : Step → Operation (Session PriorityQueue Handle) Answer
  | .insert key payload coins => do
    let outcome ← act (insertWithin limit key payload coins)
    pure (.insertion outcome)
  | .extractMin => do
    let found ← act (extractMinWithin limit)
    pure (.entry found)
  | .peek => do
    let found ← Session.reading peek
    pure (.entry found)
  | .entries => do
    let all ← act (entriesWithin limit)
    pure (.entries all)
  | .figures => do
    let figures ← Session.reading PriorityQueue.figures
    pure (.figures figures)
  | .describe => Session.reading fun queue => .ok (.text queue.describe)
  | .draw coins => Session.reading fun queue => .ok (.height (drawHeight queue.maxHeight coins))
  | .levels => do
    let all ← Session.reading linkedLevels
    pure (.levels all)
  | .hold name target => takeHold limit name target
  | .release name => withHandle .refused name fun handle => do
    forget name
    act (giveUp handle)
    pure .done
  | .inspect name => withHandle .refused name takeInspect
  | .commit name => withHandle .refused name (takeCommit name)
  | .hint name predecessor => withHandle .refused name fun handle =>
    withHandle .refused predecessor fun other => takeHint handle other
  | .markLinks name level => takeAt limit name level .deleted fun _ node => do
    let entry ← Pool.bodyAt node
    let marked ← markLinks node level (entry.height - level)
    pure (.flags marked)
  | .bypass name level => takeAt limit name level .marked fun helping node => do
    Pool.retain headSlot
    let prev ← helping.bypass node headSlot level
    showPredecessor prev
  | .help name level => takeAt limit name level .deleted fun helping node => do
    Pool.retain node
    let prev ← helping.help node level
    showPredecessor prev
  | .successor name level => takeAt limit name level .reached fun helping node => do
    Pool.retain node
    let position ← helping.successor node level
    showPosition position
  | .seek name level key => takeAt limit name level .reached fun helping node => do
    Pool.retain node
    let position ← helping.seek node level key
    showPosition position
  | .complete name => withHandle .refused name (takeComplete limit name)

/-- Take one step. -/
def take (step : Step) : Operation (Session PriorityQueue Handle) Answer :=
  takeWithin walkBound step

end PriorityQueue

end PooledContainers
