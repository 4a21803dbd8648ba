/-
Keys and payloads made from a plain index, for trying out containers: the index itself as a key of
either kind, and an aligned word that tells which index it was made from.
-/

import PooledContainers.Payload

namespace PooledContainers

/-- Keys that can be made from an index. -/
class IndexKey (Key : Type) where
  /-- The key of an index. -/
  ofIndex : UInt32 → Key

/-- A signed key has the value of its index. -/
instance : IndexKey Int64 where
  ofIndex index := Int64.ofNat index.toNat

/-- An unsigned key has the value of its index. -/
instance : IndexKey UInt64 where
  ofIndex index := index.toUInt64

/-- The payload of an index: its successor, times the alignment. -/
def indexPayload (index : UInt32) : UInt64 := (index.toUInt64 + 1) * alignment

end PooledContainers
