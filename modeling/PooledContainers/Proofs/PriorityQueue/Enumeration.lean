/-
The list of the entries against the nodes of a queue. However removals were left, with nodes that
are committed in a row, behind a live node with the same key or under the last key of all, the list
shows each live node once, in ascending order of the keys. The walk takes deleted nodes off levels
on its way, but what is live stays, and so do the length and the number of free nodes.
-/

import PooledContainers.Proofs.PriorityQueue.Runs

namespace PooledContainers

namespace PriorityQueue

open Line Operation Pool

/-- The entries of a queue were listed: each live node once, in ascending order of the keys. All
that counts is in the queue afterwards as it was. -/
structure Enumerated (queue : PriorityQueue) (all : List (UInt64 × UInt64))
    (after : PriorityQueue) : Prop where
  each : all.Perm ((liveSlots queue.pool).map (entryOf queue.pool))
  ascending : all.Pairwise fun first second => first.1 < second.1
  live : ∀ slot, Live after.pool slot ↔ Live queue.pool slot
  body : ∀ slot, after.pool.bodyOf slot = queue.pool.bodyOf slot
  length : after.length = queue.length
  available : ∃ number, queue.available = .ok number ∧ after.available = .ok number

/-- No two live nodes show the same entry. -/
theorem Consistent.nodup_entries {maxHeight : Nat} {line free : List Nat} {pending : Nat → Bool}
    {held : Nat → Nat} {pool : Pool maxLevels Entry}
    (consistent : Consistent maxHeight line free [] pending held pool) :
    ((liveSlots pool).map (entryOf pool)).Nodup := by
  have keys := consistent.distinct_live.nodup_keys (nodup_liveSlots pool)
  refine List.Nodup.of_map Prod.fst ?_
  rw [List.map_map]
  exact keys

theorem InOrder.entries_enumerated {options : Options} {history : History}
    {session : Session PriorityQueue Handle} {line free : List Nat}
    (inOrder : InOrder options history session line free) :
    Ends entries session.subject (Enumerated session.subject) := by
  have consistent := inOrder.consistent
  refine onLevels_ends inOrder.maxHeight (consistent.allEntries_ends.imp fun all pool listed => ?_)
  obtain ⟨holds, ascending, members⟩ := listed
  obtain ⟨stays, -⟩ := inOrder.walked holds
  have nodup : all.Nodup := ascending.imp fun smaller same =>
    absurd (same ▸ smaller) (UInt64.lt_irrefl _)
  refine ⟨(List.perm_ext_iff_of_nodup nodup consistent.nodup_entries).mpr fun entry => ?_,
    ascending, fun slot => ?_, holds.tidied.body, rfl, free.length, inOrder.available_eq,
    stays.available_eq⟩
  · rw [List.mem_map, show entry = (entry.1, entry.2) from rfl, members]
    refine exists_congr fun slot => ?_
    rw [mem_liveSlots, consistent.live_iff, and_assoc]
    exact and_congr_right fun _ => and_congr_right fun _ => Prod.mk.injEq .. ▸ Iff.rfl
  · exact ((stays.consistent.live_iff slot).trans (and_congr_right fun _ =>
      (deleted_congr (holds.tidied.body slot)).not)).trans (consistent.live_iff slot).symm

/-- In every session of a legal run the entries can be listed, whatever is left half done. -/
theorem entries_enumerate {options : Options} {history : History}
    {session : Session PriorityQueue Handle} (reached : Reached options history session) :
    Ends entries session.subject (Enumerated session.subject) := by
  obtain ⟨line, free, inOrder⟩ := reached.inOrder
  exact inOrder.entries_enumerated

/-- A node is committed and its key is inserted anew, in front of it; the last key of all is
committed behind both. The links of the committed nodes are marked at level 0. -/
def markedBehind : List Step :=
  [.insert 5 24 0, .hold "older" (.firstFrom 5), .commit "older", .insert 5 8 1,
    .insert 18446744073709551615 16 0, .hold "last" (.firstFrom 18446744073709551615),
    .commit "last", .markLinks "older" 0, .markLinks "last" 0]

theorem exists_markedBehind : ∃ history session last,
    followFromStart smallOptions markedBehind = some (history, session) ∧
      session.handles.find? "last" = some last ∧
      keyAfter? (keyOf session.subject.pool last.node) = none ∧
      session.subject.pool.Linked 0 last.node ∧
      (session.subject.pool.linkOf last.node 0).isMarked = true := by
  have found : ((followFromStart smallOptions markedBehind).bind fun reached =>
      (reached.2.handles.find? "last").bind fun last =>
        if keyAfter? (keyOf reached.2.subject.pool last.node) = none ∧
            reached.2.subject.pool.Linked 0 last.node ∧
            (reached.2.subject.pool.linkOf last.node 0).isMarked = true
          then some (reached, last) else none).isSome = true := by
    decide +kernel
  obtain ⟨⟨reached, last⟩, same⟩ := Option.isSome_iff_exists.mp found
  obtain ⟨⟨history, session⟩, followed, rest⟩ := Option.bind_eq_some_iff.mp same
  obtain ⟨handle, named, met⟩ := Option.bind_eq_some_iff.mp rest
  split at met
  next holds => exact ⟨history, session, handle, followed, named, holds⟩
  next => exact absurd met (by simp)

/-- The entries can be listed over committed nodes, the last of them under the last key of all. -/
theorem entries_enumerate_markedBehind : ∃ history session last,
    followFromStart smallOptions markedBehind = some (history, session) ∧
      session.handles.find? "last" = some last ∧
      keyAfter? (keyOf session.subject.pool last.node) = none ∧
      session.subject.pool.Linked 0 last.node ∧
      (session.subject.pool.linkOf last.node 0).isMarked = true ∧
      Ends entries session.subject (Enumerated session.subject) := by
  obtain ⟨history, session, last, followed, named, isLast, linked, marked⟩ := exists_markedBehind
  exact ⟨history, session, last, followed, named, isLast, linked, marked,
    entries_enumerate (Reached.of_steps followed)⟩

end PriorityQueue

end PooledContainers
