/-
The failures that a pool and the containers on it report to their callers. A lookup that finds
nothing is no failure. Each failure is a cause with its figure, and its wording stands in one
place.
-/

namespace PooledContainers

/-! ### Pools -/

/-- A failure of a pool of nodes. -/
inductive PoolError where
  /-- Storage for this many nodes could not be reserved. -/
  | unreservable (nodes : Nat)
  /-- Every one of this many nodes is in use. -/
  | exhausted (capacity : Nat)
deriving DecidableEq

/-- The wording of a pool's failure. -/
def PoolError.message : PoolError → String
  | .unreservable nodes =>
    "failed to reserve backing storage for " ++ toString nodes ++ " nodes"
  | .exhausted capacity => "node pool exhausted (" ++ toString capacity ++ " nodes in use)"

/-! ### Containers -/

/-- A failure of a container. -/
inductive ContainerError where
  /-- Storage for this many nodes could not be had. -/
  | unreservable (nodes : Nat)
  /-- The container has room for no more than this many entries. -/
  | full (capacity : Nat)
  /-- The word of a payload is not a multiple of the alignment. -/
  | misaligned (word : UInt64)
deriving DecidableEq

/-- The hexadecimal digits of a word, lower case, after `0x`. -/
def hexadecimal (word : UInt64) : String :=
  "0x" ++ String.ofList (Nat.toDigits 16 word.toNat)

namespace ContainerError

/-- A pool's failure as the container on it reports it. -/
def ofPoolError : PoolError → ContainerError
  | .unreservable nodes => .unreservable nodes
  | .exhausted capacity => .full capacity

/-- The wording of a container's failure. -/
def message : ContainerError → String
  | .unreservable nodes => "failed to allocate storage for " ++ toString nodes ++ " nodes"
  | .full capacity => "container is full (" ++ toString capacity ++ " nodes)"
  | .misaligned word => "payload word " ++ hexadecimal word ++ " is not pointer-aligned"

end ContainerError

end PooledContainers
