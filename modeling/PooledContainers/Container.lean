/-
What the ordered containers have in common: a fixed capacity, entries under keys, an insert that
tells what became of its payload, and the removal of the smallest entry. What an insert does about
a key that is already there is up to the container, and the answer says which it was.
-/

import PooledContainers.Error
import PooledContainers.Operation

namespace PooledContainers

/-- The capacity of a container for which none is given. -/
def defaultCapacity : UInt64 := 4096

/-! ### Inserts -/

/-- What became of an insert that succeeded. -/
inductive Insertion (Value : Type) where
  /-- A new entry was linked. -/
  | inserted
  /-- The key was there; its entry was kept, and the payload comes back. -/
  | duplicate (rejected : Value)
  /-- The key was there; its payload was replaced, and the one before comes back. -/
  | replaced (previous : Value)
deriving DecidableEq

namespace Insertion

variable {Value : Type}

/-- Whether a new entry was linked. -/
def isInserted : Insertion Value → Bool
  | inserted => true
  | duplicate _ => false
  | replaced _ => false

/-- The payload that did not end up in the container, if there is one. -/
def displaced : Insertion Value → Option Value
  | inserted => none
  | duplicate rejected => some rejected
  | replaced previous => some previous

end Insertion

/-- What an insert of a word answers. -/
abbrev InsertOutcome : Type := Except ContainerError (Insertion UInt64)

/-! ### The common interface -/

/-- A container of fixed capacity, ordered by key and drained from the smallest. Payloads are
words. -/
class OrderedContainer (Container : Type) where
  /-- The keys. -/
  Key : Type
  /-- An empty container that holds no more than so many entries. -/
  ofCapacity : UInt64 → Except ContainerError Container
  /-- Insert a payload under a key. The coins are the random draw of the insert, for containers
  that make one: the number of heads before the first tail. -/
  insert : (key : Key) → (payload : UInt64) → (coins : Nat) → Operation Container InsertOutcome
  /-- Remove the entry with the smallest key. -/
  extractMin : Operation Container (Option (Key × UInt64))
  /-- The number of live entries. -/
  length : Container → Nat
  /-- The number of entries that fit. -/
  capacity : Container → UInt64
  /-- The number of unused nodes. -/
  available : Container → Except Fault Nat

/-- Whether a container holds no live entry. -/
def OrderedContainer.isEmpty {Container : Type} [OrderedContainer Container]
    (container : Container) : Bool :=
  OrderedContainer.length container == 0

end PooledContainers
