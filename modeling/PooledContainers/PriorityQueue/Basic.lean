/-
A priority queue keeps entries under unsigned keys in a skip list: nodes of a pool, linked in
ascending order on one or more levels between two sentinels.

    level 2  head -----------------------> 30 --------------> tail
    level 1  head ----------> 10 --------> 30 --------------> tail
    level 0  head ----------> 10 --> 20 -> 30 -----> 40 ----> tail

A deletion is committed by the mark in a node's data word, not by a link. The links are marked
afterwards, on every level, and then the node is unlinked from the top level down; a link left
behind by that is cleared, which tells late helpers that the level is done. A node is linked at
level 0 before any higher level, and only the link at level 0 owns a count on it. The reference
back of a node names the predecessor that was seen when it was committed. It is counted, but it is
only a hint where to start looking.
-/

import PooledContainers.Backoff
import PooledContainers.Payload
import PooledContainers.Sentinel
import PooledContainers.Word

namespace PooledContainers

namespace PriorityQueue

/-! ### Nodes -/

/-- The payload of a node and whether its deletion is committed, in one word: payloads are aligned,
so that bit 0 is free for the mark. -/
structure Datum where
  /-- The word. -/
  word : UInt64
deriving DecidableEq

namespace Datum

/-- Whether the deletion is committed. -/
def isDeleted (datum : Datum) : Bool := lowBit datum.word

/-- The word with the deletion committed. -/
def delete (datum : Datum) : Datum := ⟨setLowBit datum.word⟩

/-- The payload, whether or not the deletion is committed. -/
def payload (datum : Datum) : UInt64 := clearLowBit datum.word

@[simp] theorem isDeleted_delete (datum : Datum) : datum.delete.isDeleted = true :=
  lowBit_setLowBit datum.word

/-- A commit keeps the payload. -/
@[simp] theorem payload_delete (datum : Datum) : datum.delete.payload = datum.payload :=
  clearLowBit_setLowBit datum.word

end Datum

/-- The number of levels for which every node has links. -/
def maxLevels : Nat := 12

/-- What a node of a priority queue holds. -/
structure Entry where
  /-- The key. -/
  key : UInt64
  /-- The payload and the mark of a committed deletion. -/
  datum : Datum
  /-- The number of levels at which the node is linked, or is to be. -/
  height : Nat
  /-- The number of bottom levels at which the node may serve as a start for a search. -/
  validHeight : Nat

/-- A node takes up a word for each of its links, and six for its counter, its reference back and
what it holds. -/
instance : NodeKind maxLevels Entry := NodeKind.ofWords (maxLevels + 6)

/-- An action on the nodes of a priority queue. -/
abbrev Walk (Answer : Type) : Type := Pool.Action maxLevels Entry Answer

/-! ### Options -/

/-- The number of levels used where none is given. -/
def defaultMaxHeight : UInt64 := 6

/-- How a priority queue is to be made. -/
structure Options where
  /-- The number of entries that fit. -/
  capacity : UInt64
  /-- The number of levels asked for. -/
  maxHeight : UInt64
  /-- The delays between attempts at a link that others change too. -/
  backoff : BackoffBounds

namespace Options

/-- The options used where none are given. -/
def default : Options := ⟨defaultCapacity, defaultMaxHeight, BackoffBounds.default⟩

/-- The number of levels that a queue gets: the one asked for, but at least one and no more than
there are links for. -/
def height (options : Options) : Nat := max 1 (min options.maxHeight.toNat maxLevels)

theorem height_bounds (options : Options) :
    1 ≤ options.height ∧ options.height ≤ maxLevels := by
  unfold height maxLevels
  omega

end Options

end PriorityQueue

/-! ### Queues -/

/-- A queue of entries drained from the smallest key. An insert that finds its key live replaces
the payload. -/
structure PriorityQueue where
  /-- The nodes, those of the sentinels included. -/
  pool : Pool PriorityQueue.maxLevels PriorityQueue.Entry
  /-- The number of entries that fit. -/
  capacity : UInt64
  /-- The number of levels in use. -/
  maxHeight : Nat
  /-- The delays between attempts at a link that others change too. -/
  backoff : BackoffBounds
  /-- Entries linked less deletions committed. -/
  balance : Int
  /-- There is a level, and every level has links. -/
  height_bounds : 1 ≤ maxHeight ∧ maxHeight ≤ PriorityQueue.maxLevels

namespace PriorityQueue

/-! ### Making a queue -/

/-- The links of the head of an empty queue: to the tail on every level in use. -/
def headLinks (maxHeight : Nat) : Vector Link maxLevels :=
  Vector.ofFn fun level => if level.val < maxHeight then Link.ofSlot tailSlot else Link.nil

/-- Give the sentinels their heights and their keys, which only mark the ends, and link the first to
the second on every level in use. -/
def linkSentinels (maxHeight : Nat) (pool : Pool maxLevels Entry) : Pool maxLevels Entry :=
  (pool.modify headSlot fun node =>
      { node with links := headLinks maxHeight, body := ⟨0, ⟨0⟩, maxHeight, maxHeight⟩ }).modify
    tailSlot fun node => { node with body := ⟨18446744073709551615, ⟨0⟩, maxHeight, maxHeight⟩ }

/-- An empty queue made as the options say. -/
def ofOptions [NodeKind maxLevels Entry] (options : Options) :
    Except ContainerError PriorityQueue :=
  match reserveNodes options.capacity (some Link.nil) ⟨0, ⟨0⟩, 0, 0⟩ with
  | .ok pool =>
    .ok ⟨linkSentinels options.height pool, options.capacity, options.height, options.backoff, 0,
      options.height_bounds⟩
  | .error error => .error error

/-- An empty queue for a number of entries. -/
def ofCapacity [NodeKind maxLevels Entry] (capacity : UInt64) :
    Except ContainerError PriorityQueue :=
  ofOptions { Options.default with capacity }

/-- The height of a new node, given its random draw: one level, and one more for every head before
the first tail, as long as there are levels. -/
def drawHeight (maxHeight coins : Nat) : Nat := min (1 + coins) maxHeight

/-! ### Figures -/

/-- The number of live entries. -/
def length (queue : PriorityQueue) : Nat := queue.balance.toNat

/-- Whether the queue holds no live entry. -/
def isEmpty (queue : PriorityQueue) : Bool := queue.length == 0

/-- The number of nodes on the free list. -/
def available (queue : PriorityQueue) : Except Fault Nat := queue.pool.available

/-- The text of a queue: its capacity, its number of levels and its length. -/
def describe (queue : PriorityQueue) : String :=
  "PriorityQueue \x7b capacity: " ++ toString queue.capacity ++ ", max_height: " ++
    toString queue.maxHeight ++ ", len: " ++ toString queue.length ++ " \x7d"

/-! ### Acting on a queue -/

/-- Walk the nodes of a queue. -/
def onNodes {Answer : Type} (walk : Walk Answer) : Operation PriorityQueue Answer :=
  Operation.within pool (fun queue pool => { queue with pool }) walk

/-- Count entries linked, or deletions committed where the change is negative. -/
def adjustBalance (change : Int) : Operation PriorityQueue Unit :=
  Operation.updating fun queue => { queue with balance := queue.balance + change }

end PriorityQueue

end PooledContainers
