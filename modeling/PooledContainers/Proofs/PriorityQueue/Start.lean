/-
A queue as it is made. Its line is empty, the head is linked to the tail on every level in use, and
every slot but those of the sentinels is free.
-/

import PooledContainers.Proofs.Pool.Reserve
import PooledContainers.Proofs.PriorityQueue.Consistent

namespace PooledContainers

namespace PriorityQueue

open Line Pool

/-! ### Linking the sentinels -/

section Sentinels

variable {maxHeight : Nat} {pool : Pool maxLevels Entry}

theorem size_linkSentinels : (linkSentinels maxHeight pool).size = pool.size := by
  unfold linkSentinels
  rw [size_modify, size_modify]

theorem nodeOf_linkSentinels (enough : sentinelCount ≤ pool.size) (slot : Nat) :
    (linkSentinels maxHeight pool).nodeOf slot =
      if slot = tailSlot then
        { pool.nodeOf tailSlot with body := ⟨18446744073709551615, ⟨0⟩, maxHeight, maxHeight⟩ }
      else if slot = headSlot then
        { pool.nodeOf headSlot with
          links := headLinks maxHeight, body := ⟨0, ⟨0⟩, maxHeight, maxHeight⟩ }
      else pool.nodeOf slot := by
  have headInside : headSlot < pool.size := Nat.lt_of_lt_of_le (by decide) enough
  have tailInside : tailSlot < pool.size := Nat.lt_of_lt_of_le (by decide) enough
  unfold linkSentinels
  rw [nodeOf_modify _ (by rwa [size_modify]), nodeOf_modify _ headInside,
    nodeOf_modify _ headInside, if_neg (show tailSlot ≠ headSlot by decide)]

theorem counterOf_linkSentinels (enough : sentinelCount ≤ pool.size) (slot : Nat) :
    (linkSentinels maxHeight pool).counterOf slot = pool.counterOf slot := by
  unfold counterOf
  rw [nodeOf_linkSentinels enough]
  split
  next isTail => rw [isTail]
  next =>
    split
    next isHead => rw [isHead]
    next => rfl

theorem backOf_linkSentinels (maxHeight : Nat) (enough : sentinelCount ≤ pool.size) (slot : Nat) :
    (linkSentinels maxHeight pool).backOf slot = pool.backOf slot := by
  unfold backOf
  rw [nodeOf_linkSentinels enough]
  split
  next isTail => rw [isTail]
  next =>
    split
    next isHead => rw [isHead]
    next => rfl

theorem linkOf_linkSentinels (enough : sentinelCount ≤ pool.size) (slot level : Nat) :
    (linkSentinels maxHeight pool).linkOf slot level =
      if slot = headSlot then ((headLinks maxHeight)[level]?).getD Link.nil
      else pool.linkOf slot level := by
  unfold linkOf
  rw [nodeOf_linkSentinels enough]
  by_cases isTail : slot = tailSlot
  · subst isTail
    rw [if_pos rfl, if_neg (show tailSlot ≠ headSlot by decide)]
  · rw [if_neg isTail]
    split <;> rfl

theorem bodyOf_linkSentinels (maxHeight : Nat) (enough : sentinelCount ≤ pool.size) {slot : Nat}
    (sentinel : slot = headSlot ∨ slot = tailSlot) :
    ((linkSentinels maxHeight pool).bodyOf slot).datum = ⟨0⟩ ∧
      ((linkSentinels maxHeight pool).bodyOf slot).height = maxHeight ∧
      ((linkSentinels maxHeight pool).bodyOf slot).validHeight = maxHeight := by
  unfold bodyOf
  rw [nodeOf_linkSentinels enough]
  rcases sentinel with rfl | rfl
  · rw [if_neg (show headSlot ≠ tailSlot by decide), if_pos rfl]
    exact ⟨rfl, rfl, rfl⟩
  · rw [if_pos rfl]
    exact ⟨rfl, rfl, rfl⟩

end Sentinels

theorem headLinks_getD {maxHeight : Nat} (heightLe : maxHeight ≤ maxLevels) (level : Nat) :
    ((headLinks maxHeight)[level]?).getD Link.nil =
      if level < maxHeight then Link.ofSlot tailSlot else Link.nil := by
  unfold headLinks
  by_cases reached : level < maxLevels
  · rw [Vector.getElem?_eq_getElem reached, Vector.getElem_ofFn]
    rfl
  · rw [Vector.getElem?_eq_none (Nat.le_of_not_lt reached), if_neg (by omega)]
    rfl

/-! ### The empty queue -/

section Reserved

variable {maxHeight : Nat} {free : List Nat} {pool : Pool maxLevels Entry}
  (reserved : Reserved (some Link.nil) free pool) (heights : 1 ≤ maxHeight ∧ maxHeight ≤ maxLevels)

include reserved

theorem back?_of_reserved (slot : Nat) : (linkSentinels maxHeight pool).back? slot = none :=
  (Pool.back?_congr (backOf_linkSentinels maxHeight reserved.enough slot)).trans
    (reserved.nowhere slot)

include heights

/-- The sentinels are all there is in the line. -/
theorem roster_of_reserved : Roster maxHeight [] (linkSentinels maxHeight pool) := by
  have enough := reserved.enough
  have headBody := bodyOf_linkSentinels maxHeight enough (Or.inl rfl)
  have tailBody := bodyOf_linkSentinels maxHeight enough (Or.inr rfl)
  refine ⟨⟨by decide, ?inside, heights, by simp, headBody.2.1, headBody.2.2, ?headAlive,
    ?tailAlive, by simp, by simp, by simp, by simp⟩, by simp, by simp, ?backThere⟩
  case inside =>
    intro slot member
    rw [size_linkSentinels]
    exact Nat.lt_of_lt_of_le (mem_spine_nil.mp member) enough
  case headAlive =>
    unfold Deleted
    rw [headBody.1]
    decide
  case tailAlive =>
    unfold Deleted
    rw [tailBody.1]
    decide
  case backThere =>
    intro slot inside
    rw [size_linkSentinels] at inside
    rw [backOf_linkSentinels maxHeight enough, reserved.back slot inside]
    rfl

/-- The head is linked to the tail at all levels in use. -/
theorem lanes_of_reserved :
    Lanes maxHeight [] (linkSentinels maxHeight pool) (linkSentinels maxHeight pool) := by
  have enough := reserved.enough
  have headBody := bodyOf_linkSentinels maxHeight enough (Or.inl rfl)
  have headLink : ∀ level, (linkSentinels maxHeight pool).linkOf headSlot level =
      if level < maxHeight then Link.ofSlot tailSlot else Link.nil := fun level => by
    rw [linkOf_linkSentinels enough, if_pos rfl, headLinks_getD heights.2]
  have headThere : ∀ level, (linkSentinels maxHeight pool).linkOf headSlot level ≠ Link.nil ↔
      level < maxHeight := by
    intro level
    rw [headLink]
    split
    next low => exact iff_of_true (Link.ofSlot_ne_nil (by decide)) low
    next high => exact iff_of_false (fun there => there rfl) high
  refine ⟨fun level low => Threaded.nil ?_, ?headUnmarked, ?tailNil, by simp, ?valid, ?down, ?top⟩
  · exact Pool.next?_of_linkOf (by rw [headLink, if_pos low]) (by decide)
  case headUnmarked =>
    intro level
    rw [headLink]
    split
    next => exact Link.isMarked_ofSlot (by decide)
    next => exact Link.isMarked_nil
  case tailNil =>
    intro level
    rw [linkOf_linkSentinels enough, if_neg (show tailSlot ≠ headSlot by decide),
      reserved.tailNil]
  case valid =>
    intro slot member level low
    rw [List.mem_singleton.mp member] at low ⊢
    rw [headBody.2.2] at low
    exact (headThere level).mpr low
  case down =>
    intro slot member level below le there
    rw [List.mem_singleton.mp member] at there ⊢
    exact (headThere below).mpr (Nat.lt_of_le_of_lt le ((headThere level).mp there))
  case top =>
    intro slot member level there
    rw [List.mem_singleton.mp member] at there ⊢
    rw [headBody.2.1]
    exact (headThere level).mp there

/-- A pool whose sentinels have just been linked is in order, with an empty line. -/
theorem consistent_of_reserved :
    Consistent maxHeight [] free [] (fun _ => false) (fun _ => 0)
      (linkSentinels maxHeight pool) := by
  have enough := reserved.enough
  have nowhere : ∀ slot, (linkSentinels maxHeight pool).back? slot = none :=
    back?_of_reserved reserved
  have notFree : ∀ slot ∈ spine [], slot ∉ free := fun slot member isFree =>
    (reserved.mem_iff slot (reserved.accounted.inside slot isFree)).mp isFree
      (mem_spine_nil.mp member)
  refine ⟨roster_of_reserved reserved heights, lanes_of_reserved reserved heights, ?accounted,
    notFree, ?covered, by simp, by simp, by simp, fun slot _ => nowhere slot⟩
  case accounted =>
    refine (reserved.accounted.of_frame (fun _ => 0) size_linkSentinels rfl
      (fun slot member level => ?_) (fun slot => (nowhere slot).trans (reserved.nowhere slot).symm)
      (fun _ _ => rfl) fun slot _ => counterOf_linkSentinels enough slot).congr fun slot _ => ?_
    · rw [linkOf_linkSentinels enough, if_neg]
      rintro rfl
      exact notFree headSlot (head_mem_spine []) member
    · rw [Nat.zero_add, placeCount_start, Nat.add_zero]
  case covered =>
    intro slot inside
    rw [size_linkSentinels] at inside
    rw [mem_spine_nil, reserved.mem_iff slot inside]
    tauto

end Reserved

/-- An empty queue has a node for each entry that fits, and all of them are free. -/
theorem ofOptions_eq_ok [NodeKind maxLevels Entry] {options : Options} {queue : PriorityQueue}
    (made : ofOptions options = .ok queue) :
    queue.capacity = options.capacity ∧ queue.maxHeight = options.height ∧ queue.balance = 0 ∧
      queue.pool.size = options.capacity.toNat + sentinelCount ∧
      ∃ free, Consistent queue.maxHeight [] free [] (fun _ => false) (fun _ => 0) queue.pool := by
  unfold ofOptions at made
  split at made
  next pool reserved =>
    have nowhere : (some Link.nil).bind Link.slot? = none := Link.slot?_nil
    obtain ⟨size, free, start⟩ := reserveNodes_eq_ok (by decide) nowhere reserved
    rw [← Except.ok.inj made]
    exact ⟨rfl, rfl, rfl, size_linkSentinels.trans size, free,
      consistent_of_reserved start options.height_bounds⟩
  next => exact absurd made (by simp)

/-- A queue is refused just where there is no storage for a node for each entry and the sentinels,
whatever the number of levels asked for. -/
theorem ofOptions_eq_error_iff [NodeKind maxLevels Entry] {options : Options}
    {error : ContainerError} :
    ofOptions options = .error error ↔
      NodeKind.limit maxLevels Entry ≤ options.capacity.toNat + sentinelCount ∧
        error = .unreservable (min (options.capacity.toNat + sentinelCount) (UInt64.size - 1)) := by
  refine Iff.trans ?_ (reserveNodes_eq_error_iff (some Link.nil) ⟨0, ⟨0⟩, 0, 0⟩)
  unfold ofOptions
  split
  next pool reserved => simp [reserved]
  next other refused => simp [refused]

end PriorityQueue

end PooledContainers
