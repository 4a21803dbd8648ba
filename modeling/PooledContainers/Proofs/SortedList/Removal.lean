/-
Removals. A node is deleted by the mark on its link, and from then on its removal is owned. To
complete it, the node is taken off the list, by its predecessor if that one still points to it and
by a fresh search if not, and the count of the link to it is given back. The removals by key and of
the smallest entry find their node by a search and go through the same two phases.
-/

import PooledContainers.Proofs.SortedList.Consistent
import PooledContainers.SortedList.Operations

namespace PooledContainers

namespace SortedList

open Line Operation Pool

variable {line free fresh : List Nat} {pending : Nat → Bool} {held : Nat → Nat}
  {pool after : Pool 1 Entry} {prev node slot : Nat}

/-! ### Deleting a node -/

/-- The pool with the link of a node marked. -/
def deleted (pool : Pool 1 Entry) (node : Nat) : Pool 1 Entry :=
  pool.withLink node 0 ((pool.linkOf node 0).setMark true)

theorem linkOf_deleted (inside : node < pool.size) (slot : Nat) :
    (deleted pool node).linkOf slot 0 =
      if slot = node then (pool.linkOf node 0).setMark true else pool.linkOf slot 0 := by
  unfold deleted
  rw [linkOf_withLink inside Nat.zero_lt_one]
  simp only [and_true]

theorem marked_deleted_iff (inside : node < pool.size) (slot : Nat) :
    Marked (deleted pool node) slot ↔ slot = node ∨ Marked pool slot := by
  unfold Marked
  rw [linkOf_deleted inside]
  split
  next same => exact iff_of_true (Link.isMarked_setMark _ true) (Or.inl same)
  next apart => rw [or_iff_right apart]

/-- Deleting a node leaves all others as they were. -/
theorem alike_deleted {pending : Nat → Bool} (inside : node < pool.size) :
    Alike (finish pending node) pool (deleted pool node) where
  size := size_withLink _ _ _
  body slot _ := bodyOf_withLink inside slot
  marked slot still := by
    rw [marked_deleted_iff inside]
    refine or_iff_right ?_
    rintro rfl
    unfold finish at still
    simp at still
  cleared slot still off := by
    rw [linkOf_deleted inside, if_neg]
    · exact off
    · rintro rfl
      unfold finish at still
      simp at still

theorem next?_deleted (inside : node < pool.size) (slot : Nat) :
    (deleted pool node).next? 0 slot = pool.next? 0 slot :=
  next?_marked inside Nat.zero_lt_one 0 slot

theorem bodyOf_deleted (inside : node < pool.size) (slot : Nat) :
    (deleted pool node).bodyOf slot = pool.bodyOf slot :=
  bodyOf_withLink inside slot

/-- A live node is marked by who asks first. -/
theorem mark_ends (inside : node < pool.size) (alive : ¬ Marked pool node)
    {condition : Bool → Pool 1 Entry → Prop} (goal : condition true (deleted pool node)) :
    Ends (mark node) pool condition :=
  markLink_ends inside Nat.zero_lt_one (Bool.eq_false_iff.mpr alive) goal

/-- A marked node is not marked again. -/
theorem mark_ends_of_marked (marked : Marked pool node)
    {condition : Bool → Pool 1 Entry → Prop} (goal : condition false pool) :
    Ends (mark node) pool condition :=
  markLink_ends_of_isMarked (inside_of_marked marked) Nat.zero_lt_one marked goal

namespace Consistent

/-- A node of the line may be deleted. -/
theorem deleted (consistent : Consistent line free fresh pending held pool)
    (member : node ∈ line) : Consistent line free fresh pending held (deleted pool node) := by
  have inside := consistent.inside (mem_spine_of_mem member)
  have strung := consistent.strung
  have size : (SortedList.deleted pool node).size = pool.size := size_withLink _ _ _
  have link : ∀ slot, slot ≠ node →
      (SortedList.deleted pool node).linkOf slot 0 = pool.linkOf slot 0 := by
    intro slot apart
    rw [linkOf_deleted inside, if_neg apart]
  have back? : ∀ slot, (SortedList.deleted pool node).back? slot = pool.back? slot := by
    intro slot
    unfold SortedList.deleted Pool.back?
    rw [backOf_withLink inside]
  refine consistent.of_frame (strung.congr size (fun slot _ => keyOf_congr
    (bodyOf_withLink inside slot)) (fun slot _ => next?_deleted inside slot) ?_ ?_) size
    ((consistent.accounted.of_frame (fun _ => 0) size rfl (fun slot isFree level => ?_) back?
      (fun _ _ => rfl) fun slot _ => counterOf_withLink inside slot).congr fun _ _ => rfl)
    (fun _ isFree => isFree) (fun _ known => known) (fun slot cleared => ?_) back?
  · rw [marked_deleted_iff inside, not_or]
    exact ⟨fun same => head_not_mem strung.distinct (same ▸ member), strung.headUnmarked⟩
  · rw [link tailSlot fun same => tail_not_mem strung.distinct (same ▸ member)]
    exact strung.tailNil
  · unfold SortedList.deleted
    rw [linkOf_withLink inside Nat.zero_lt_one, if_neg]
    rintro ⟨rfl, -⟩
    exact consistent.occupied slot (mem_spine_of_mem member) isFree
  · rw [link slot]
    · exact cleared
    · rintro rfl
      exact consistent.not_mem_of_cleared cleared (List.mem_cons_of_mem _ member)

/-- The count of the link to a node that is off the list may be given back. -/
theorem finished (consistent : Consistent line free fresh pending held pool)
    (isPending : pending node = true) (off : node ∉ line) :
    Consistent line free fresh (finish pending node) (addCount held node) pool := by
  refine { consistent with
    accounted := consistent.accounted.congr fun slot _ => placeCount_finish isPending held slot
    linkedPending := fun slot member => ?linkedPending
    pendingKnown := fun slot still => ?pendingKnown }
  case linkedPending =>
    unfold finish
    rw [consistent.linkedPending slot member, Bool.true_and, decide_eq_true_eq]
    rintro rfl
    exact off member
  case pendingKnown =>
    unfold finish at still
    rw [Bool.and_eq_true] at still
    exact consistent.pendingKnown slot still.1

/-! ### Completing a removal -/

/-- Only the head and linked nodes point to a node. -/
theorem mem_of_leads (consistent : Consistent line free [] pending held pool)
    (prevInside : prev < pool.size) (isHeld : 0 < held prev) (inside : node < pool.size)
    (leads : pool.linkOf prev 0 = Link.ofSlot node) : prev ∈ headSlot :: line := by
  have limit := size_lt_slotLimit inside
  rcases consistent.covered prev prevInside with inSpine | isFresh | isFree | isCleared
  · refine mem_cons_of_mem_spine inSpine ?_
    rintro rfl
    rw [consistent.strung.tailNil] at leads
    exact Link.ofSlot_ne_nil limit leads.symm
  · exact absurd isFresh (by simp)
  · exact absurd isFree (consistent.accounted.not_free_of_pos (Nat.add_pos_left isHeld _))
  · have unmarked := Link.isMarked_ofSlot limit
    rw [← leads, isCleared, Link.isMarked_cleared] at unmarked
    exact absurd unmarked.symm Bool.false_ne_true

/-- Any held node may try to take a deleted one off the list. It succeeds if it points there. -/
theorem unlink_held_ends (consistent : Consistent line free [] pending held pool)
    (prevInside : prev < pool.size) (isHeld : 0 < held prev) (marked : Marked pool node) :
    Ends (unlink prev node) pool fun unlinked after =>
      unlinked = decide (pool.linkOf prev 0 = Link.ofSlot node) ∧
        (∃ line, Consistent line free [] pending held after) ∧ Alike pending pool after := by
  have inside := inside_of_marked marked
  by_cases leads : pool.linkOf prev 0 = Link.ofSlot node
  · have prevMember := consistent.mem_of_leads prevInside isHeld inside leads
    have adjacent := consistent.holds.adjacent prevMember leads inside
    have nodeMember : node ∈ line := by
      refine adjacent.mem_of_ne_tail ?_
      rintro rfl
      exact not_marked_of_nil consistent.strung.tailNil marked
    rw [decide_eq_true leads]
    refine (unlink_ends consistent.holds prevMember nodeMember marked leads).imp
      fun unlinked after off => ⟨off.1, ⟨remaining line after, ?_⟩, off.2.holds.alike pending⟩
    exact (consistent.walked off.2.holds (by simp)).congr fun slot => by simp
  · rw [decide_eq_false leads]
    exact unlink_ends_of_ne prevInside inside marked leads
      ⟨rfl, ⟨line, consistent⟩, Alike.refl pending pool⟩

/-- A removal was completed: its node is off the list, and nobody waits for it any more. -/
abbrev Completed (pending : Nat → Bool) (held : Nat → Nat) (node : Nat)
    (pool after : Pool 1 Entry) : Prop :=
  ∃ line free, Consistent line free [] (finish pending node) held after ∧
    Alike (finish pending node) pool after

theorem finish_le {pending : Nat → Bool} (slot : Nat)
    (still : finish pending node slot = true) : pending slot = true := by
  unfold finish at still
  rw [Bool.and_eq_true] at still
  exact still.1

/-- After a walk that has taken its node off the list, a removal is completed by giving up the
counts that are left. -/
theorem settle_ends (consistent : Consistent line free [] pending held pool)
    (rest : Nat → Nat) {temporary slots : List Nat}
    (holds : consistent.ground.Holds temporary after)
    (members : ∀ slot ∈ temporary, slot ∈ spine line) (isPending : pending node = true)
    (off : ¬ after.Linked 0 node)
    (counted : ∀ slot, rest slot + slots.count slot =
      addCount (fun other => held other + temporary.count other) node slot)
    (inside : ∀ slot ∈ slots, slot < pool.size) :
    Ends (releaseAll slots) after fun _ last => Completed pending rest node pool last := by
  have walked := consistent.walked holds members
  have finished := (walked.finished isPending fun member => off (mem_remaining.mp member).2).congr
    counted
  refine (finished.releaseAll_ends slots fun slot member => ?_).imp fun _ last released => ?_
  · rw [holds.size]
    exact inside slot member
  · obtain ⟨laterFree, settled, alike⟩ := released
    exact ⟨_, laterFree, settled, (holds.alike _).trans alike⟩

/-- Completing a removal takes the node off the list, whatever has become of its predecessor. -/
theorem complete_ends
    (consistent : Consistent line free [] pending (addCount (addCount held node) prev) pool)
    (isPending : pending node = true) (marked : Marked pool node) (prevInside : prev < pool.size) :
    Ends (complete prev node) pool fun _ after => Completed pending held node pool after := by
  have inside := inside_of_marked marked
  have prevHeld : 0 < addCount (addCount held node) prev prev := by
    rw [addCount_self]
    exact Nat.succ_pos _
  unfold complete
  by_cases leads : pool.linkOf prev 0 = Link.ofSlot node
  · have prevMember := consistent.mem_of_leads prevInside prevHeld inside leads
    have adjacent := consistent.holds.adjacent prevMember leads inside
    have nodeMember : node ∈ line := by
      refine adjacent.mem_of_ne_tail ?_
      rintro rfl
      exact not_marked_of_nil consistent.strung.tailNil marked
    refine Ends.andThen (unlink_ends consistent.holds prevMember nodeMember marked leads)
      fun unlinked middle off => ?_
    obtain ⟨rfl, off⟩ := off
    rw [if_pos rfl]
    refine consistent.settle_ends held off.holds (by simp) isPending off.off (fun slot => ?_)
      fun slot member => ?_
    · unfold addCount
      simp only [List.count_cons, List.count_nil, beq_iff_eq, eq_comm (a := slot)]
      omega
    · simp only [List.mem_cons, List.not_mem_nil, or_false] at member
      rcases member with rfl | rfl | rfl
      · exact inside
      · exact inside
      · exact prevInside
  · refine Ends.bind (unlink_ends_of_ne prevInside inside marked leads ?_)
    rw [if_neg Bool.false_ne_true]
    refine Ends.andThen (consistent.release_ends prevInside) fun _ middle released => ?_
    obtain ⟨middleFree, middleConsistent, alike⟩ := released
    have middleInside : node < middle.size := by rwa [alike.size]
    refine Ends.bind (bodyAt_ends middleInside ?_)
    refine Ends.andThen (search_ends middleConsistent.holds (middle.bodyOf node).key)
      fun position last found => ?_
    obtain ⟨before, behind⟩ := position
    have off : ¬ last.Linked 0 node := by
      intro linked
      rcases middleConsistent.pendingKnown node isPending with inLine | isCleared
      · exact found.off inLine ((alike.marked node isPending).mpr marked) (Int64.le_refl _) linked
      · have wasLinked := found.holds.tidied.linked node 0 linked
        exact not_linked_of_cleared isCleared wasLinked
    have beforeSpine := mem_spine_of_mem_cons found.member
    have behindSpine := found.adjacent.mem_spine
    refine (middleConsistent.settle_ends held found.holds (fun slot member => ?_) isPending off
      (fun slot => ?_) fun slot member => ?_).imp fun _ final done => ?_
    · simp only [List.mem_cons, List.not_mem_nil, or_false] at member
      rcases member with rfl | rfl
      · exact beforeSpine
      · exact behindSpine
    · unfold addCount
      simp only [List.count_cons, List.count_nil, beq_iff_eq, eq_comm (a := slot)]
      omega
    · simp only [List.mem_cons, List.not_mem_nil, or_false] at member
      rcases member with rfl | rfl | rfl | rfl
      · exact middleConsistent.inside beforeSpine
      · exact middleConsistent.inside behindSpine
      · exact middleInside
      · exact middleInside
    · obtain ⟨laterLine, laterFree, settled, later⟩ := done
      exact ⟨laterLine, laterFree, settled, (alike.mono finish_le).trans later⟩

end Consistent

end SortedList

end PooledContainers
