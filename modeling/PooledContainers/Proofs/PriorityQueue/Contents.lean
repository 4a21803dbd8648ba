/-
What a queue holds, told by its line. The live nodes of the line have different keys, so that a key
has at most one payload; a change of the nodes changes what is held in no other way than it changes
the live nodes.
-/

import Mathlib.Logic.Function.Basic
import PooledContainers.Proofs.PriorityQueue.History

namespace PooledContainers

namespace PriorityQueue

open Line Pool

variable {maxHeight : Nat} {line free : List Nat} {pending : Nat → Bool} {held : Nat → Nat}
  {pool after : Pool maxLevels Entry}

/-- The key and the payload of a slot's node. -/
def entryOf (pool : Pool maxLevels Entry) (slot : Nat) : UInt64 × UInt64 :=
  (keyOf pool slot, (pool.bodyOf slot).datum.payload)

theorem entryOf_congr {slot : Nat} (body : after.bodyOf slot = pool.bodyOf slot) :
    entryOf after slot = entryOf pool slot := by
  unfold entryOf keyOf
  rw [body]

/-! ### Live slots -/

theorem mem_liveSlots {slot : Nat} : slot ∈ liveSlots pool ↔ Live pool slot := by
  unfold liveSlots
  rw [List.mem_filter, List.mem_range, decide_eq_true_eq]
  exact and_iff_right_of_imp fun live => live.1.2.1

theorem nodup_liveSlots (pool : Pool maxLevels Entry) : (liveSlots pool).Nodup :=
  List.nodup_range.filter _

/-- As many slots are live as before, if the same ones are. -/
theorem length_liveSlots_congr (same : ∀ slot, Live after slot ↔ Live pool slot) :
    (liveSlots after).length = (liveSlots pool).length := by
  refine List.Perm.length_eq ((List.perm_ext_iff_of_nodup (nodup_liveSlots after)
    (nodup_liveSlots pool)).mpr fun slot => ?_)
  rw [mem_liveSlots, mem_liveSlots]
  exact same slot

/-- One more slot is live. -/
theorem length_liveSlots_succ (slot : Nat) (new : ¬ Live pool slot)
    (more : ∀ other, Live after other ↔ other = slot ∨ Live pool other) :
    (liveSlots after).length = (liveSlots pool).length + 1 := by
  have distinct : (slot :: liveSlots pool).Nodup :=
    List.nodup_cons.mpr ⟨fun member => new (mem_liveSlots.mp member), nodup_liveSlots pool⟩
  have permuted : (liveSlots after).Perm (slot :: liveSlots pool) := by
    refine (List.perm_ext_iff_of_nodup (nodup_liveSlots after) distinct).mpr fun other => ?_
    rw [mem_liveSlots, List.mem_cons, mem_liveSlots]
    exact more other
  exact permuted.length_eq

namespace Consistent

theorem isSentinel_eq_false (consistent : Consistent maxHeight line free [] pending held pool)
    {slot : Nat} (member : slot ∈ line) : isSentinel slot = false :=
  isSentinel_eq_false_of_mem consistent.roster.distinct member

/-- The line has just the inserted nodes. -/
theorem inserted_iff (consistent : Consistent maxHeight line free [] pending held pool)
    (slot : Nat) : Inserted pool slot ↔ slot ∈ line := by
  constructor
  · rintro ⟨inner, inside, even⟩
    have occupied := (consistent.accounted.not_free_iff inside).mpr even
    rcases consistent.covered slot inside with inSpine | isFresh | isFree
    · exact mem_of_mem_spine inSpine inner
    · exact absurd isFresh (by simp)
    · exact absurd isFree occupied
  · intro member
    have inside := consistent.inside member
    exact ⟨consistent.isSentinel_eq_false member, inside, (consistent.accounted.not_free_iff
      inside).mp (consistent.occupied slot (mem_spine_of_mem member))⟩

theorem live_iff (consistent : Consistent maxHeight line free [] pending held pool)
    (slot : Nat) : Live pool slot ↔ slot ∈ line ∧ ¬ Deleted pool slot :=
  and_congr_left' (consistent.inserted_iff slot)

/-- Live nodes have different keys. -/
theorem live_unique (consistent : Consistent maxHeight line free [] pending held pool)
    {first second : Nat} (firstLive : Live pool first) (secondLive : Live pool second)
    (same : keyOf pool first = keyOf pool second) : first = second := by
  obtain ⟨firstMember, firstAlive⟩ := (consistent.live_iff first).mp firstLive
  obtain ⟨secondMember, secondAlive⟩ := (consistent.live_iff second).mp secondLive
  have sorted := consistent.roster.sorted
  rcases Nat.lt_trichotomy (rank line first) (rank line second) with before | equal | behind
  · rcases sorted first firstMember second secondMember before with less | ⟨-, dead⟩
    · exact absurd (same ▸ less) (UInt64.lt_irrefl _)
    · exact absurd dead secondAlive
  · exact rank_injective (mem_spine_of_mem firstMember) equal
  · rcases sorted second secondMember first firstMember behind with less | ⟨-, dead⟩
    · exact absurd (same ▸ less) (UInt64.lt_irrefl _)
    · exact absurd dead firstAlive

theorem distinct_live (consistent : Consistent maxHeight line free [] pending held pool) :
    Holdings.Distinct (liveSlots pool) (keyOf pool) := fun _ firstMember _ secondMember =>
  consistent.live_unique (mem_liveSlots.mp firstMember) (mem_liveSlots.mp secondMember)

/-- The live node with a key is found by the key. -/
theorem find?_liveSlots (consistent : Consistent maxHeight line free [] pending held pool)
    {slot : Nat} (live : Live pool slot) :
    ((liveSlots pool).find? fun other => keyOf pool other == keyOf pool slot) = some slot :=
  consistent.distinct_live.find?_eq_some (mem_liveSlots.mpr live)

end Consistent

/-! ### What is held -/

variable {queue changed : PriorityQueue}

theorem contents_eq_none_iff {key : UInt64} :
    contents queue key = none ↔ ∀ slot, Live queue.pool slot → keyOf queue.pool slot ≠ key := by
  unfold contents
  rw [Holdings.lookup_eq_none_iff]
  simp only [mem_liveSlots]

/-- A key is held with the payload of the live node that has it. -/
theorem contents_eq_some_iff
    (consistent : Consistent maxHeight line free [] pending held queue.pool)
    {key payload : UInt64} : contents queue key = some payload ↔
      ∃ slot, Live queue.pool slot ∧ keyOf queue.pool slot = key ∧
        (queue.pool.bodyOf slot).datum.payload = payload := by
  unfold contents
  rw [Holdings.lookup_eq_some_iff consistent.distinct_live]
  simp only [mem_liveSlots]

theorem contents_of_live (consistent : Consistent maxHeight line free [] pending held queue.pool)
    {slot : Nat} (live : Live queue.pool slot) :
    contents queue (keyOf queue.pool slot) = some (queue.pool.bodyOf slot).datum.payload :=
  (contents_eq_some_iff consistent).mpr ⟨slot, live, rfl, rfl⟩

section Changes

variable {laterLine laterFree : List Nat} {laterPending : Nat → Bool} {laterHeld : Nat → Nat}
  (before : Consistent maxHeight line free [] pending held queue.pool)
  (later : Consistent maxHeight laterLine laterFree [] laterPending laterHeld changed.pool)

include before later

/-- The same is held if the same nodes are live, with the same keys and payloads. -/
theorem contents_congr (live : ∀ slot, Live changed.pool slot ↔ Live queue.pool slot)
    (body : ∀ slot, Live queue.pool slot → changed.pool.bodyOf slot = queue.pool.bodyOf slot) :
    contents changed = contents queue := by
  refine Holdings.lookup_congr before.distinct_live later.distinct_live (fun slot => ?_)
    (fun slot member => ?_) fun slot member => ?_
  · rw [mem_liveSlots, mem_liveSlots]
    exact live slot
  · unfold keyOf
    rw [body slot (mem_liveSlots.mp member)]
  · rw [body slot (mem_liveSlots.mp member)]

/-- A key is given up with its live node. -/
theorem contents_erase {gone : Nat} (goneLive : Live queue.pool gone)
    (live : ∀ slot, Live changed.pool slot ↔ Live queue.pool slot ∧ slot ≠ gone)
    (body : ∀ slot, Live queue.pool slot → slot ≠ gone →
      changed.pool.bodyOf slot = queue.pool.bodyOf slot) :
    contents changed = Function.update (contents queue) (keyOf queue.pool gone) none := by
  refine Holdings.lookup_erase before.distinct_live later.distinct_live
    (mem_liveSlots.mpr goneLive) (fun slot => ?_) (fun slot member apart => ?_)
    fun slot member apart => ?_
  · rw [mem_liveSlots, mem_liveSlots]
    exact live slot
  · unfold keyOf
    rw [body slot (mem_liveSlots.mp member) apart]
  · rw [body slot (mem_liveSlots.mp member) apart]

/-- A key is set by a live node that has it, while the others stay as they were. -/
theorem contents_set {set : Nat} (setLive : Live changed.pool set)
    (live : ∀ slot, slot ≠ set → (Live changed.pool slot ↔ Live queue.pool slot))
    (body : ∀ slot, Live queue.pool slot → slot ≠ set →
      changed.pool.bodyOf slot = queue.pool.bodyOf slot)
    (only : Live queue.pool set → keyOf queue.pool set = keyOf changed.pool set) :
    contents changed = Function.update (contents queue) (keyOf changed.pool set)
      (some (changed.pool.bodyOf set).datum.payload) := by
  have payload : ∀ slot ∈ liveSlots queue.pool, slot ≠ set →
      (changed.pool.bodyOf slot).datum.payload = (queue.pool.bodyOf slot).datum.payload := by
    intro slot member apart
    rw [body slot (mem_liveSlots.mp member) apart]
  refine Holdings.lookup_set before.distinct_live later.distinct_live
    (mem_liveSlots.mpr setLive) (fun slot apart => ?_) (fun slot member apart => ?_)
    payload fun member => only (mem_liveSlots.mp member)
  · rw [mem_liveSlots, mem_liveSlots]
    exact live slot apart
  · unfold keyOf
    rw [body slot (mem_liveSlots.mp member) apart]

end Changes

end PriorityQueue

end PooledContainers
