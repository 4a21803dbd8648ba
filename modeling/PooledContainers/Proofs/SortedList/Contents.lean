/-
What a list holds, told by what is pending. A node is live if its removal is pending and not yet
begun, so that what walks and releases leave alone is what is held.
-/

import PooledContainers.Proofs.SortedList.Insert
import PooledContainers.Proofs.SortedList.Meaning

namespace PooledContainers

namespace SortedList

open Line Pool

variable {line free : List Nat} {pending : Nat → Bool} {held : Nat → Nat} {pool : Pool 1 Entry}
  {slot : Nat}

/-! ### Live slots -/

theorem mem_liveSlots : slot ∈ liveSlots pool ↔ Live pool slot := by
  unfold liveSlots
  rw [List.mem_filter, List.mem_range, decide_eq_true_eq]
  exact and_iff_right_of_imp fun live => live.2.1

namespace Consistent

theorem isSentinel_eq_false (consistent : Consistent line free [] pending held pool)
    (member : slot ∈ line) : isSentinel slot = false :=
  isSentinel_eq_false_of_mem consistent.strung.distinct member

/-- An inner node that is not free and not marked stands in the line. -/
theorem mem_line_of_unmarked (consistent : Consistent line free [] pending held pool)
    (inner : isSentinel slot = false) (inside : slot < pool.size) (occupied : slot ∉ free)
    (unmarked : ¬ Marked pool slot) : slot ∈ line := by
  rcases consistent.covered slot inside with inSpine | isFresh | isFree | isCleared
  · exact mem_of_mem_spine inSpine inner
  · exact absurd isFresh (by simp)
  · exact absurd isFree occupied
  · exact absurd (marked_of_cleared isCleared) unmarked

theorem live_iff_mem (consistent : Consistent line free [] pending held pool) (slot : Nat) :
    Live pool slot ↔ slot ∈ line ∧ ¬ Marked pool slot := by
  constructor
  · rintro ⟨inner, inside, even, unmarked⟩
    have occupied := (consistent.accounted.not_free_iff inside).mpr even
    exact ⟨consistent.mem_line_of_unmarked inner inside occupied unmarked, unmarked⟩
  · rintro ⟨member, unmarked⟩
    have inside := consistent.inside (mem_spine_of_mem member)
    exact ⟨consistent.isSentinel_eq_false member, inside, (consistent.accounted.not_free_iff
      inside).mp (consistent.occupied slot (mem_spine_of_mem member)), unmarked⟩

theorem live_iff (consistent : Consistent line free [] pending held pool) (slot : Nat) :
    Live pool slot ↔ pending slot = true ∧ ¬ Marked pool slot := by
  rw [consistent.live_iff_mem]
  refine and_congr_left fun unmarked => ⟨consistent.linkedPending slot, fun isPending => ?_⟩
  exact (consistent.pendingKnown slot isPending).resolve_right fun isCleared =>
    unmarked (marked_of_cleared isCleared)

/-- Live nodes have different keys. -/
theorem distinct_live (consistent : Consistent line free [] pending held pool) :
    Holdings.Distinct (liveSlots pool) (keyOf pool) := by
  intro first firstLive second secondLive same
  have firstMember := ((consistent.live_iff_mem first).mp (mem_liveSlots.mp firstLive)).1
  have secondMember := ((consistent.live_iff_mem second).mp (mem_liveSlots.mp secondLive)).1
  have sorted := consistent.strung.sorted
  rcases Nat.lt_trichotomy (rank line first) (rank line second) with before | equal | behind
  · exact absurd (same ▸ sorted first firstMember second secondMember before) Int64.lt_irrefl
  · exact rank_injective (mem_spine_of_mem firstMember) equal
  · exact absurd (same ▸ sorted second secondMember first firstMember behind) Int64.lt_irrefl

theorem liveSlot?_eq_some (consistent : Consistent line free [] pending held pool)
    (live : Live pool slot) : liveSlot? pool (keyOf pool slot) = some slot :=
  consistent.distinct_live.find?_eq_some (mem_liveSlots.mpr live)

end Consistent

/-! ### What is held -/

section Held

variable {list : SortedList} (consistent : Consistent line free [] pending held list.pool)

theorem contents_eq_none_iff {key : Int64} :
    contents list key = none ↔ ∀ slot, Live list.pool slot → keyOf list.pool slot ≠ key := by
  unfold contents
  rw [Holdings.lookup_eq_none_iff]
  simp only [mem_liveSlots]

include consistent

/-- A key is held with the payload of the live node that has it. -/
theorem contents_eq_some_iff {key : Int64} {payload : UInt64} :
    contents list key = some payload ↔ ∃ slot, Live list.pool slot ∧
      keyOf list.pool slot = key ∧ (list.pool.bodyOf slot).payload = payload := by
  unfold contents
  rw [Holdings.lookup_eq_some_iff consistent.distinct_live]
  simp only [mem_liveSlots]

theorem contents_of_live (live : Live list.pool slot) :
    contents list (keyOf list.pool slot) = some (list.pool.bodyOf slot).payload :=
  (contents_eq_some_iff consistent).mpr ⟨slot, live, rfl, rfl⟩

end Held

/-! ### Changes -/

section Changes

variable {list after : SortedList} {laterLine laterFree : List Nat} {later : Nat → Bool}
  {laterHeld : Nat → Nat} {node : Nat}
  (before : Consistent line free [] pending held list.pool)

include before

/-- What is held stays the same if the nodes that are still pending stay as they were, and only
nodes that are not live cease to be pending. -/
theorem contents_eq_of_alike
    (consistent : Consistent laterLine laterFree [] later laterHeld after.pool)
    (alike : Alike later list.pool after.pool)
    (fewer : ∀ slot, later slot = true → pending slot = true)
    (still : ∀ slot, Live list.pool slot → later slot = true) : contents after = contents list := by
  have pendingOfLive : ∀ slot ∈ liveSlots list.pool, later slot = true := fun slot member =>
    still slot (mem_liveSlots.mp member)
  refine Holdings.lookup_congr before.distinct_live consistent.distinct_live (fun slot => ?_)
    (fun slot member => keyOf_congr (alike.body slot (pendingOfLive slot member)))
    fun slot member => congrArg Entry.payload (alike.body slot (pendingOfLive slot member))
  rw [mem_liveSlots, mem_liveSlots, consistent.live_iff]
  constructor
  · rintro ⟨isPending, unmarked⟩
    exact (before.live_iff slot).mpr
      ⟨fewer slot isPending, (alike.marked slot isPending).not.mp unmarked⟩
  · intro live
    have isPending := still slot live
    exact ⟨isPending, (alike.marked slot isPending).not.mpr ((before.live_iff slot).mp live).2⟩

/-- A key is given up with its live node, while the other pending nodes stay as they were. -/
theorem contents_eq_erase
    (consistent : Consistent laterLine laterFree [] later laterHeld after.pool)
    (nodeLive : Live list.pool node)
    (alike : Alike (finish pending node) list.pool after.pool)
    (live : ∀ slot, Live after.pool slot ↔ finish pending node slot = true ∧
      ¬ Marked after.pool slot) :
    contents after = Function.update (contents list) (keyOf list.pool node) none := by
  have remains : ∀ slot, finish pending node slot = true ↔ pending slot = true ∧ slot ≠ node :=
    fun slot => by
      unfold finish
      rw [Bool.and_eq_true, decide_eq_true_eq]
  have stillPending : ∀ slot ∈ liveSlots list.pool, slot ≠ node →
      finish pending node slot = true := fun slot member apart =>
    (remains slot).mpr ⟨((before.live_iff slot).mp (mem_liveSlots.mp member)).1, apart⟩
  refine Holdings.lookup_erase before.distinct_live consistent.distinct_live
    (mem_liveSlots.mpr nodeLive) (fun slot => ?_)
    (fun slot member apart => keyOf_congr (alike.body slot (stillPending slot member apart)))
    fun slot member apart =>
      congrArg Entry.payload (alike.body slot (stillPending slot member apart))
  rw [mem_liveSlots, mem_liveSlots, live, before.live_iff, remains, and_assoc, and_assoc]
  refine and_congr_right fun isPending => ?_
  constructor
  · rintro ⟨apart, unmarked⟩
    exact ⟨(alike.marked slot ((remains slot).mpr ⟨isPending, apart⟩)).not.mp unmarked, apart⟩
  · rintro ⟨unmarked, apart⟩
    exact ⟨apart, (alike.marked slot ((remains slot).mpr ⟨isPending, apart⟩)).not.mpr unmarked⟩

/-- A key is added with a node that is linked, while the pending nodes stay as they were. -/
theorem contents_eq_set {entry : Entry} (notPending : pending node = false)
    (joined : Joined pending held node entry list.pool after.pool) :
    contents after = Function.update (contents list) entry.key (some entry.payload) := by
  obtain ⟨laterLine, laterFree, consistent⟩ := joined.consistent
  have alike := joined.alike
  have nodeKey : keyOf after.pool node = entry.key := congrArg Entry.key joined.body
  have pendingOfLive : ∀ slot ∈ liveSlots list.pool, pending slot = true := fun slot member =>
    ((before.live_iff slot).mp (mem_liveSlots.mp member)).1
  have nodeLive : Live after.pool node :=
    (consistent.live_iff node).mpr ⟨await_eq_true_iff.mpr (Or.inr rfl), joined.alive⟩
  have set := Holdings.lookup_set before.distinct_live consistent.distinct_live
    (mem_liveSlots.mpr nodeLive) (fun slot apart => ?_)
    (fun slot member _ => keyOf_congr (alike.body slot (pendingOfLive slot member)))
    (fun slot member _ => congrArg Entry.payload (alike.body slot (pendingOfLive slot member)))
    fun member => absurd ((pendingOfLive node member).symm.trans notPending) (by simp)
  · rw [nodeKey, joined.body] at set
    exact set
  · rw [mem_liveSlots, mem_liveSlots, consistent.live_iff, before.live_iff, await_eq_true_iff,
      or_iff_left apart]
    exact and_congr_right fun isPending => (alike.marked slot isPending).not

end Changes

end SortedList

end PooledContainers
