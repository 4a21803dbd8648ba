/-
The list of the entries against the chain of a list. However removals were left, with marked nodes
in a row, at either end of the chain or under the last key of all, each live node is listed once, in
the order of the chain. The walk may take marked nodes off the chain on its way; what is live stays,
and so do the length and the number of free nodes.
-/

import PooledContainers.Proofs.SortedList.Shape

namespace PooledContainers

namespace SortedList

open Line Operation Pool

/-- The key and the payload of a slot's node. -/
def entryOf (pool : Pool 1 Entry) (slot : Nat) : Int64 × UInt64 :=
  (keyOf pool slot, (pool.bodyOf slot).payload)

/-- The entries of a list were listed: each live node once, in the order of the chain. All that
counts is in the list afterwards as it was. -/
structure Enumerated (list : SortedList) (all : List (Int64 × UInt64)) (after : SortedList) :
    Prop where
  each : ∃ live, LiveChain list.pool live ∧ all = live.map (entryOf list.pool)
  ascending : all.Pairwise fun first second => first.1 < second.1
  live : ∀ slot, Live after.pool slot ↔ Live list.pool slot
  body : ∀ slot, after.pool.bodyOf slot = list.pool.bodyOf slot
  length : after.length = list.length
  available : ∃ number, list.available = .ok number ∧ after.available = .ok number
  thinned : ∃ slots left, Thinned list.pool after.pool slots left

namespace Consistent

variable {line free : List Nat} {pending : Nat → Bool} {held : Nat → Nat} {pool : Pool 1 Entry}

/-- What is listed in ascending order and shows just the live nodes shows them in the order of the
chain. -/
theorem eq_map_entryOf (consistent : Consistent line free [] pending held pool)
    {all : List (Int64 × UInt64)} (ascending : all.Pairwise fun first second => first.1 < second.1)
    (members : ∀ key payload, (key, payload) ∈ all ↔ ∃ slot ∈ line, ¬ Marked pool slot ∧
      keyOf pool slot = key ∧ (pool.bodyOf slot).payload = payload) :
    all = (liveNodes pool line).map (entryOf pool) := by
  have shown : ((liveNodes pool line).map (entryOf pool)).Pairwise
      fun first second => first.1 < second.1 :=
    List.pairwise_map.mpr consistent.liveChain.ascending
  have strict : Std.Asymm fun first second : Int64 × UInt64 => first.1 < second.1 :=
    ⟨fun _ _ => Int64.lt_asymm⟩
  refine ascending.eq_of_mem_iff shown fun entry => ?_
  rw [show entry = (entry.1, entry.2) from rfl, members, List.mem_map]
  simp only [mem_liveNodes, entryOf, Prod.mk.injEq, and_assoc]

theorem entries_enumerated {list : SortedList}
    (consistent : Consistent line free [] pending held list.pool) :
    Ends entries list (Enumerated list) := by
  refine onNodes_ends (consistent.allEntries_ends.imp fun all pool listed => ?_)
  obtain ⟨holds, ascending, members⟩ := listed
  have none : ∀ slot ∈ ([] : List Nat), slot ∈ spine line := by simp
  have later := consistent.walked holds none
  exact ⟨⟨_, consistent.liveChain, consistent.eq_map_entryOf ascending members⟩, ascending,
    consistent.live_iff_of_holds holds none, holds.tidied.body, rfl,
    ⟨free.length, consistent.available_eq, later.available_eq⟩,
    ⟨_, _, consistent.thinned holds none⟩⟩

end Consistent

/-- In every session of a run the entries can be listed, whatever is left half done. -/
theorem entries_listed {capacity : UInt64} {pending : Nat → Bool}
    {session : Session SortedList Handle} (reached : Reached capacity pending session) :
    Ends entries session.subject (Enumerated session.subject) := by
  obtain ⟨line, free, consistent⟩ := reached.inOrder.consistent
  exact consistent.entries_enumerated

/-- The entries can be listed if the chain ends with marked nodes, the last of them under the last
key of all. -/
theorem entries_listed_markedToEnd : ∃ pending session last,
    followFromStart 4 markedToEnd = some (pending, session) ∧
      session.handles.find? "last" = some last ∧
      keyAfter? (keyOf session.subject.pool last.node) = none ∧
      session.subject.pool.Linked 0 last.node ∧ Marked session.subject.pool last.node ∧
      Ends entries session.subject (Enumerated session.subject) := by
  obtain ⟨pending, session, last, followed, named, isLast, linked, marked⟩ := exists_markedToEnd
  exact ⟨pending, session, last, followed, named, isLast, linked, marked,
    entries_listed (Reached.of_steps followed)⟩

end SortedList

end PooledContainers
