/-
Containers driven by index. A command names a key by its index and uses nothing but the common
interface, so that containers of different kinds can be driven by the same commands and their
replies compared.
-/

import PooledContainers.Container
import PooledContainers.IndexKey

namespace PooledContainers

/-- What a container is asked. -/
inductive Command where
  /-- Insert a payload under the key of an index, with the coins of the random draw. -/
  | insert (index : UInt32) (payload : UInt64) (coins : Nat)
  /-- Remove the entry with the smallest key. -/
  | extractMin
  /-- The number of live entries. -/
  | length
  /-- Whether there is none. -/
  | isEmpty
  /-- The number of entries that fit. -/
  | capacity
  /-- The number of unused nodes. -/
  | available

/-- What a container replies. -/
inductive Reply (Key : Type) where
  /-- What became of an insert. -/
  | insertion (outcome : InsertOutcome)
  /-- An entry, or none. -/
  | entry (found : Option (Key × UInt64))
  /-- A number of entries. -/
  | length (value : Nat)
  /-- Yes or no. -/
  | isEmpty (value : Bool)
  /-- A number of entries that fit. -/
  | capacity (value : UInt64)
  /-- A number of nodes. -/
  | available (value : Nat)

/-- The same reply with other keys. -/
def Reply.map {Key Other : Type} (key : Key → Other) : Reply Key → Reply Other
  | .insertion outcome => .insertion outcome
  | .entry found => .entry (found.map fun entry => (key entry.1, entry.2))
  | .length value => .length value
  | .isEmpty value => .isEmpty value
  | .capacity value => .capacity value
  | .available value => .available value

section Driving

variable {Container : Type} [OrderedContainer Container]
  [IndexKey (OrderedContainer.Key Container)]

/-- Carry out one command. -/
def drive : Command → Operation Container (Reply (OrderedContainer.Key Container))
  | .insert index payload coins => do
    let outcome ← OrderedContainer.insert (IndexKey.ofIndex index) payload coins
    pure (.insertion outcome)
  | .extractMin => do
    let found ← OrderedContainer.extractMin
    pure (.entry found)
  | .length => Operation.reading fun container => .ok (.length (OrderedContainer.length container))
  | .isEmpty =>
    Operation.reading fun container => .ok (.isEmpty (OrderedContainer.isEmpty container))
  | .capacity =>
    Operation.reading fun container => .ok (.capacity (OrderedContainer.capacity container))
  | .available =>
    Operation.reading fun container => (OrderedContainer.available container).map .available

/-- Carry out commands one after another: the reply to each. -/
def driveAll : List Command → Operation Container (List (Reply (OrderedContainer.Key Container)))
  | [] => pure []
  | command :: rest => do
    let reply ← drive command
    let replies ← driveAll rest
    pure (reply :: replies)

end Driving

end PooledContainers
