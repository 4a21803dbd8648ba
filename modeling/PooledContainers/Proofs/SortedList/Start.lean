/-
A list as it is made. Its line is empty, the head is linked to the tail, and every slot but those of
the sentinels is free.
-/

import PooledContainers.Proofs.Pool.Reserve
import PooledContainers.Proofs.SortedList.Consistent

namespace PooledContainers

namespace SortedList

open Line Pool

/-! ### Linking the sentinels -/

section Sentinels

variable {pool : Pool 1 Entry} (enough : sentinelCount ≤ pool.size)

theorem size_linkSentinels : (linkSentinels pool).size = pool.size := by
  unfold linkSentinels
  rw [size_modify, size_modify]

include enough

theorem nodeOf_linkSentinels (slot : Nat) :
    (linkSentinels pool).nodeOf slot =
      if slot = tailSlot then { pool.nodeOf tailSlot with body := ⟨Int64.maxValue, 0⟩ }
      else if slot = headSlot then
        { (pool.nodeOf headSlot).setLink 0 (Link.ofSlot tailSlot) with
          body := ⟨Int64.minValue, 0⟩ }
      else pool.nodeOf slot := by
  have headInside : headSlot < pool.size := Nat.lt_of_lt_of_le (by decide) enough
  have tailInside : tailSlot < pool.size := Nat.lt_of_lt_of_le (by decide) enough
  unfold linkSentinels
  rw [nodeOf_modify _ (by rwa [size_modify]), nodeOf_modify _ headInside,
    nodeOf_modify _ headInside, if_neg (show tailSlot ≠ headSlot by decide)]

theorem counterOf_linkSentinels (slot : Nat) :
    (linkSentinels pool).counterOf slot = pool.counterOf slot := by
  unfold counterOf
  rw [nodeOf_linkSentinels enough]
  split
  next isTail => rw [isTail]
  next =>
    split
    next isHead => rw [isHead]; rfl
    next => rfl

theorem backOf_linkSentinels (slot : Nat) :
    (linkSentinels pool).backOf slot = pool.backOf slot := by
  unfold backOf
  rw [nodeOf_linkSentinels enough]
  split
  next isTail => rw [isTail]
  next =>
    split
    next isHead => rw [isHead]; rfl
    next => rfl

theorem linkOf_linkSentinels (slot level : Nat) :
    (linkSentinels pool).linkOf slot level =
      if slot = headSlot ∧ level = 0 then Link.ofSlot tailSlot else pool.linkOf slot level := by
  have headInside : headSlot < pool.size := Nat.lt_of_lt_of_le (by decide) enough
  rw [← linkOf_withLink headInside Nat.zero_lt_one]
  unfold withLink linkOf
  rw [nodeOf_linkSentinels enough, nodeOf_modify _ headInside]
  by_cases isTail : slot = tailSlot
  · subst isTail
    rw [if_pos rfl, if_neg (show tailSlot ≠ headSlot by decide)]
  · rw [if_neg isTail]
    split <;> rfl

end Sentinels

/-! ### The empty list -/

/-- A pool whose sentinels have just been linked is in order, with an empty line. -/
theorem consistent_of_reserved {free : List Nat} {pool : Pool 1 Entry}
    (reserved : Reserved none free pool) :
    Consistent [] free [] (fun _ => false) (fun _ => 0) (linkSentinels pool) := by
  have enough := reserved.enough
  have size : (linkSentinels pool).size = pool.size := size_linkSentinels
  have headLink : (linkSentinels pool).linkOf headSlot 0 = Link.ofSlot tailSlot := by
    rw [linkOf_linkSentinels enough, if_pos ⟨rfl, rfl⟩]
  have back? : ∀ slot, (linkSentinels pool).back? slot = none := fun slot =>
    (Pool.back?_congr (backOf_linkSentinels enough slot)).trans (reserved.nowhere slot)
  have notFree : ∀ slot ∈ spine [], slot ∉ free := fun slot member isFree =>
    (reserved.mem_iff slot (reserved.accounted.inside slot isFree)).mp isFree
      (mem_spine_nil.mp member)
  refine ⟨⟨by decide, ?inside, by simp, ?threaded, by simp, ?headUnmarked, ?tailNil⟩, ?accounted,
    notFree, ?covered, by simp, by simp, back?⟩
  case inside =>
    intro slot member
    rw [size]
    exact Nat.lt_of_lt_of_le (mem_spine_nil.mp member) enough
  case threaded => exact Threaded.nil (Pool.next?_of_linkOf headLink (by decide))
  case headUnmarked => exact not_marked_of_linkOf headLink (by decide)
  case tailNil =>
    rw [linkOf_linkSentinels enough, if_neg (by decide), reserved.tailNil]
  case accounted =>
    refine (reserved.accounted.of_frame (fun _ => 0) size rfl (fun slot member level => ?_)
      (fun slot => (back? slot).trans (reserved.nowhere slot).symm) (fun _ _ => rfl)
      fun slot _ => counterOf_linkSentinels enough slot).congr fun slot _ => ?_
    · rw [linkOf_linkSentinels enough, if_neg]
      rintro ⟨rfl, -⟩
      exact notFree headSlot (head_mem_spine []) member
    · rw [Nat.zero_add, placeCount_start, Nat.add_zero]
  case covered =>
    intro slot inside
    rw [size] at inside
    rw [mem_spine_nil, reserved.mem_iff slot inside]
    tauto

/-- An empty list has a node for each entry that fits, and all of them are free. -/
theorem ofCapacity_eq_ok [NodeKind 1 Entry] {capacity : UInt64} {list : SortedList}
    (made : ofCapacity capacity = .ok list) :
    list.capacity = capacity ∧ list.balance = 0 ∧
      list.pool.size = capacity.toNat + sentinelCount ∧
      ∃ free, Consistent [] free [] (fun _ => false) (fun _ => 0) list.pool := by
  unfold ofCapacity at made
  split at made
  next pool reserved =>
    obtain ⟨size, free, start⟩ := reserveNodes_eq_ok Nat.zero_lt_one rfl reserved
    rw [← Except.ok.inj made]
    exact ⟨rfl, rfl, size_linkSentinels.trans size, free, consistent_of_reserved start⟩
  next => exact absurd made (by simp)

/-- A list is refused just where there is no storage for a node for each entry and the sentinels. -/
theorem ofCapacity_eq_error_iff [NodeKind 1 Entry] {capacity : UInt64} {error : ContainerError} :
    ofCapacity capacity = .error error ↔
      NodeKind.limit 1 Entry ≤ capacity.toNat + sentinelCount ∧
        error = .unreservable (min (capacity.toNat + sentinelCount) (UInt64.size - 1)) := by
  refine Iff.trans ?_ (reserveNodes_eq_error_iff none ⟨0, 0⟩)
  unfold ofCapacity
  split
  next pool reserved => simp [reserved]
  next other refused => simp [refused]

end SortedList

end PooledContainers
