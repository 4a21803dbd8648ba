/-
A sorted list keeps entries under signed keys in a pool of nodes, linked in ascending order between
two sentinels. The delete mark on a node's link says that the node itself is logically deleted; the
sentinels are never marked. Every linked node carries one count that belongs to the link to it, and
whoever sets a node's mark owns its removal and gives that count back.

    head --> 3 --> 5 --> 7 --> tail

A removal has two phases. First the node's own link is marked, then the link to the node is swung
past it and its own link is left cleared.
-/

import PooledContainers.Payload
import PooledContainers.Sentinel

namespace PooledContainers

namespace SortedList

/-- What a node of a sorted list holds. -/
structure Entry where
  /-- The key. -/
  key : Int64
  /-- The payload, an aligned word. -/
  payload : UInt64

/-- A node takes up a word each for its counter, its link, its key and its payload. -/
instance : NodeKind 1 Entry := NodeKind.ofWords 4

/-- An action on the nodes of a sorted list. Each node has one link. -/
abbrev Walk (Answer : Type) : Type := Pool.Action 1 Entry Answer

end SortedList

/-- A list of entries in ascending order of their keys, each key at most once among the live ones.
An insert that finds its key keeps the entry that is there. -/
structure SortedList where
  /-- The nodes, those of the sentinels included. -/
  pool : Pool 1 SortedList.Entry
  /-- The number of entries that fit. -/
  capacity : UInt64
  /-- Entries linked less removals completed. -/
  balance : Int

namespace SortedList

/-! ### Making a list -/

/-- Give the sentinels their keys, which only mark the ends, and link the first to the second. -/
def linkSentinels (pool : Pool 1 Entry) : Pool 1 Entry :=
  (pool.modify headSlot fun node =>
      { node.setLink 0 (Link.ofSlot tailSlot) with body := ⟨Int64.minValue, 0⟩ }).modify tailSlot
    fun node => { node with body := ⟨Int64.maxValue, 0⟩ }

/-- An empty list for a number of entries. -/
def ofCapacity [NodeKind 1 Entry] (capacity : UInt64) : Except ContainerError SortedList :=
  match reserveNodes capacity none ⟨0, 0⟩ with
  | .ok pool => .ok ⟨linkSentinels pool, capacity, 0⟩
  | .error error => .error error

/-! ### Figures -/

/-- The number of entries, those included whose removal is not complete. -/
def length (list : SortedList) : Nat := list.balance.toNat

/-- Whether the list holds no entry. -/
def isEmpty (list : SortedList) : Bool := list.length == 0

/-- The number of nodes on the free list. -/
def available (list : SortedList) : Except Fault Nat := list.pool.available

/-- The text of a list: its capacity and its length. -/
def describe (list : SortedList) : String :=
  "SortedList \x7b capacity: " ++ toString list.capacity ++ ", len: " ++
    toString list.length ++ " \x7d"

/-! ### Acting on a list -/

/-- Walk the nodes of a list. -/
def onNodes {Answer : Type} (walk : Walk Answer) : Operation SortedList Answer :=
  Operation.within pool (fun list pool => { list with pool }) walk

/-- Count entries linked, or removals completed where the change is negative. -/
def adjustBalance (change : Int) : Operation SortedList Unit :=
  Operation.updating fun list => { list with balance := list.balance + change }

end SortedList

end PooledContainers
