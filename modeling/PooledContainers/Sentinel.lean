/-
The nodes of a container stand between two sentinels, one in front of every entry and one behind.
They take the first two slots of the pool and are told apart by slot, so that entries may have any
key whatever. A container reserves them along with a node for each entry that fits.
-/

import PooledContainers.Container
import PooledContainers.Pool.Actions

namespace PooledContainers

/-- The slot of the sentinel in front of every entry. -/
def headSlot : Nat := 0

/-- The slot of the sentinel behind every entry. -/
def tailSlot : Nat := 1

/-- The number of sentinels. -/
def sentinelCount : Nat := 2

/-- Whether a slot is that of a sentinel. -/
def isSentinel (slot : Nat) : Bool := slot == headSlot || slot == tailSlot

theorem isSentinel_iff {slot : Nat} :
    isSentinel slot = true ↔ slot = headSlot ∨ slot = tailSlot := by
  unfold isSentinel
  rw [Bool.or_eq_true, beq_iff_eq, beq_iff_eq]

theorem isSentinel_eq_false_iff {slot : Nat} :
    isSentinel slot = false ↔ slot ≠ headSlot ∧ slot ≠ tailSlot := by
  unfold isSentinel
  rw [Bool.or_eq_false_iff, beq_eq_false_iff_ne, beq_eq_false_iff_ne]

/-- Reserve the nodes of a container for a number of entries. The sentinels are held and not linked
yet. A number of nodes that does not fit a word is refused as the largest word. -/
def reserveNodes {levels : Nat} {Body : Type} [NodeKind levels Body] (capacity : UInt64)
    (back : Option Link) (body : Body) : Except ContainerError (Pool levels Body) :=
  if capacity.toNat + sentinelCount < UInt64.size then
    match Pool.reserve sentinelCount (capacity.toNat + sentinelCount) back body with
    | .ok pool => .ok pool
    | .error error => .error (.ofPoolError error)
  else .error (.unreservable (UInt64.size - 1))

/-! ### Showing nodes -/

/-- A node as it is shown. -/
inductive NodeName (Key : Type) where
  /-- The sentinel in front. -/
  | head
  /-- The sentinel behind. -/
  | tail
  /-- A node with a key. -/
  | entry (key : Key)
deriving DecidableEq

/-- The name of a node, given how to read its key. -/
def nameOf {levels : Nat} {Body Key : Type} (key : Body → Key) (node : Nat) :
    Pool.Action levels Body (NodeName Key) :=
  if node = headSlot then pure .head
  else if node = tailSlot then pure .tail
  else do
    let body ← Pool.bodyAt node
    pure (.entry (key body))

end PooledContainers
