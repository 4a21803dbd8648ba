/-
What holds of the nodes of a sorted list whenever nobody walks on them. What is linked is strung in
the order of its keys, the books of the pool balance, and every node is known: it is linked, it is
fresh from the free list, it is free, or it was taken off the list and its link was cleared. Counts
are held by handles, by the sentinels' places, and by the links to nodes whose removal is pending.
-/

import PooledContainers.Proofs.Places
import PooledContainers.Proofs.SortedList.Searching

namespace PooledContainers

namespace SortedList

open Line Operation Pool

/-! ### The invariant -/

/-- What holds of the nodes of a list between walks. -/
structure Consistent (line free fresh : List Nat) (pending : Nat → Bool) (held : Nat → Nat)
    (pool : Pool 1 Entry) : Prop where
  strung : Strung line pool
  accounted : pool.Accounted free fun slot => held slot + placeCount pending slot
  occupied : ∀ slot ∈ spine line, slot ∉ free
  covered : ∀ slot < pool.size, slot ∈ spine line ∨ slot ∈ fresh ∨ slot ∈ free ∨
    pool.linkOf slot 0 = Link.cleared
  /-- What is linked is pending. -/
  linkedPending : ∀ slot ∈ line, pending slot = true
  /-- What is pending is linked or was taken off. -/
  pendingKnown : ∀ slot, pending slot = true → slot ∈ line ∨ pool.linkOf slot 0 = Link.cleared
  /-- There are no references back. -/
  bare : ∀ slot, pool.back? slot = none

/-- What matters of pending nodes is as it was: their bodies, and whether they are marked; and those
that were taken off the list are still off it. -/
structure Alike (pending : Nat → Bool) (pool after : Pool 1 Entry) : Prop where
  size : after.size = pool.size
  body : ∀ slot, pending slot = true → after.bodyOf slot = pool.bodyOf slot
  marked : ∀ slot, pending slot = true → (Marked after slot ↔ Marked pool slot)
  cleared : ∀ slot, pending slot = true → pool.linkOf slot 0 = Link.cleared →
    after.linkOf slot 0 = Link.cleared

namespace Alike

variable {pending fewer : Nat → Bool} {pool middle after : Pool 1 Entry}

theorem refl (pending : Nat → Bool) (pool : Pool 1 Entry) : Alike pending pool pool :=
  ⟨rfl, fun _ _ => rfl, fun _ _ => Iff.rfl, fun _ _ cleared => cleared⟩

theorem trans (first : Alike pending pool middle) (second : Alike pending middle after) :
    Alike pending pool after where
  size := second.size.trans first.size
  body slot isPending := (second.body slot isPending).trans (first.body slot isPending)
  marked slot isPending := (second.marked slot isPending).trans (first.marked slot isPending)
  cleared slot isPending off := second.cleared slot isPending (first.cleared slot isPending off)

theorem mono (alike : Alike pending pool after)
    (part : ∀ slot, fewer slot = true → pending slot = true) : Alike fewer pool after where
  size := alike.size
  body slot isPending := alike.body slot (part slot isPending)
  marked slot isPending := alike.marked slot (part slot isPending)
  cleared slot isPending := alike.cleared slot (part slot isPending)

end Alike

theorem Ground.Holds.alike {ground : Ground} {temporary : List Nat} {after : Pool 1 Entry}
    (holds : ground.Holds temporary after) (pending : Nat → Bool) :
    Alike pending ground.start after where
  size := holds.size
  body slot _ := holds.tidied.body slot
  marked slot _ := holds.marked_iff slot
  cleared slot _ off := by
    rw [holds.tidied.outside slot (ground.strung.not_mem_of_cleared off) 0]
    exact off

/-- The part of a line that is still linked. -/
def remaining (line : List Nat) (pool : Pool 1 Entry) : List Nat :=
  line.filter fun slot => decide (pool.Linked 0 slot)

theorem mem_remaining {line : List Nat} {pool : Pool 1 Entry} {slot : Nat} :
    slot ∈ remaining line pool ↔ slot ∈ line ∧ pool.Linked 0 slot := by
  unfold remaining
  rw [List.mem_filter, decide_eq_true_eq]

namespace Consistent

variable {line free fresh : List Nat} {pending : Nat → Bool} {held : Nat → Nat}
  {pool after : Pool 1 Entry} {slot : Nat}

theorem inside (consistent : Consistent line free fresh pending held pool)
    (member : slot ∈ spine line) : slot < pool.size :=
  consistent.strung.inside slot member

theorem congr {others : Nat → Nat} (consistent : Consistent line free fresh pending held pool)
    (same : ∀ slot, others slot = held slot) : Consistent line free fresh pending others pool :=
  { consistent with
    accounted := consistent.accounted.congr fun slot _ => congrArg (· + _) (same slot) }

/-- What was taken off the list is not in the line. -/
theorem not_mem_of_cleared (consistent : Consistent line free fresh pending held pool)
    (cleared : pool.linkOf slot 0 = Link.cleared) : slot ∉ headSlot :: line :=
  consistent.strung.not_mem_of_cleared cleared

/-! ### Walks -/

/-- The ground for walks. -/
def ground (consistent : Consistent line free fresh pending held pool) : Ground where
  line := line
  start := pool
  base := pool.counterOf
  strung := consistent.strung
  outlasting slot member := consistent.accounted.two_le_counter (consistent.inside member)
    (consistent.occupied slot member)

theorem holds (consistent : Consistent line free fresh pending held pool) :
    consistent.ground.Holds [] pool :=
  ⟨Tidied.refl _ _ _ _ _, consistent.strung.threaded, fun _ _ => rfl⟩

/-- What is still linked after a walk is strung as it was. -/
theorem strung_remaining (consistent : Consistent line free fresh pending held pool)
    {temporary : List Nat} (holds : consistent.ground.Holds temporary after) :
    Strung (remaining line after) after := by
  have strung := consistent.strung
  have part : (remaining line after).Sublist line := List.filter_sublist
  have tailOutside : tailSlot ∉ headSlot :: line := by
    rw [List.mem_cons]
    rintro (same | member)
    · exact absurd same (by decide)
    · exact tail_not_mem strung.distinct member
  refine ⟨strung.distinct.sublist (spine_sublist part), fun slot member => ?_, ?sorted,
    holds.threaded.of_sublist strung.distinct part ?gone, fun slot member =>
      (mem_remaining.mp member).2, ?headUnmarked, ?tailNil⟩
  · exact holds.inside ((spine_sublist part).subset member)
  case sorted =>
    intro front frontMember behind behindMember before
    rw [keyOf_congr (holds.tidied.body front), keyOf_congr (holds.tidied.body behind)]
    exact strung.sorted front (part.subset frontMember) behind (part.subset behindMember)
      ((rank_lt_rank_iff part strung.distinct (mem_spine_of_mem frontMember)
        (mem_spine_of_mem behindMember)).mp before)
  case gone =>
    intro slot member off linked
    exact off (mem_remaining.mpr ⟨member, linked⟩)
  case headUnmarked => exact (holds.marked_iff headSlot).not.mpr strung.headUnmarked
  case tailNil =>
    rw [holds.tidied.outside tailSlot tailOutside 0]
    exact strung.tailNil

/-- After a walk all is in order again, with the counts that the walk still holds. -/
theorem walked (consistent : Consistent line free fresh pending held pool)
    {temporary : List Nat} (holds : consistent.ground.Holds temporary after)
    (members : ∀ slot ∈ temporary, slot ∈ spine line) :
    Consistent (remaining line after) free fresh pending
      (fun slot => held slot + temporary.count slot) after := by
  have part : (remaining line after).Sublist line := List.filter_sublist
  have back? : ∀ slot, after.back? slot = pool.back? slot := fun slot =>
    Pool.back?_congr (holds.tidied.back slot)
  -- What has left the line was taken off by the walk, which cleared its link.
  have cleared : ∀ slot ∈ line, slot ∉ remaining line after →
      after.linkOf slot 0 = Link.cleared := fun slot member off =>
    holds.cleared_of_not_linked member fun linked => off (mem_remaining.mpr ⟨member, linked⟩)
  have stillCleared : ∀ slot, pool.linkOf slot 0 = Link.cleared →
      after.linkOf slot 0 = Link.cleared := by
    intro slot wasCleared
    rw [holds.tidied.outside slot (consistent.not_mem_of_cleared wasCleared) 0]
    exact wasCleared
  refine ⟨consistent.strung_remaining holds, ?accounted, fun slot member =>
    consistent.occupied slot ((spine_sublist part).subset member), ?covered,
    fun slot member => consistent.linkedPending slot (part.subset member), ?pendingKnown,
    fun slot => (back? slot).trans (consistent.bare slot)⟩
  case accounted =>
    refine (consistent.accounted.of_frame (fun slot => temporary.count slot) holds.size
      holds.tidied.freeHead (fun slot member level => ?_) back? (fun slot member => ?_)
      fun slot inside => ?_).congr fun slot _ => ?_
    · exact holds.tidied.outside slot (fun inLine => consistent.occupied slot
        (mem_spine_of_mem_cons inLine) member) level
    · exact List.count_eq_zero.mpr fun inTemporary =>
        consistent.occupied slot (members slot inTemporary) member
    · exact holds.held slot (by rw [holds.size]; exact inside)
    · exact Nat.add_right_comm _ _ _
  case covered =>
    intro slot inside
    rw [holds.size] at inside
    rcases consistent.covered slot inside with inSpine | isFresh | isFree | isCleared
    · rcases mem_spine.mp inSpine with rfl | inLine | rfl
      · exact Or.inl (head_mem_spine _)
      · by_cases still : slot ∈ remaining line after
        · exact Or.inl (mem_spine_of_mem still)
        · exact Or.inr (Or.inr (Or.inr (cleared slot inLine still)))
      · exact Or.inl (tail_mem_spine _)
    · exact Or.inr (Or.inl isFresh)
    · exact Or.inr (Or.inr (Or.inl isFree))
    · exact Or.inr (Or.inr (Or.inr (stillCleared slot isCleared)))
  case pendingKnown =>
    intro slot isPending
    rcases consistent.pendingKnown slot isPending with inLine | isCleared
    · by_cases still : slot ∈ remaining line after
      · exact Or.inl still
      · exact Or.inr (cleared slot inLine still)
    · exact Or.inr (stillCleared slot isCleared)

/-! ### Changes that leave the line as it is -/

/-- A change that leaves the line strung, which may take nodes off the free list. -/
theorem of_frame {lessFree moreFresh : List Nat} {others : Nat → Nat}
    (consistent : Consistent line free fresh pending held pool) (strung : Strung line after)
    (size : after.size = pool.size)
    (accounted : after.Accounted lessFree fun slot => others slot + placeCount pending slot)
    (fewer : ∀ slot ∈ lessFree, slot ∈ free)
    (known : ∀ slot, slot ∈ fresh ∨ slot ∈ free → slot ∈ moreFresh ∨ slot ∈ lessFree)
    (cleared : ∀ slot, pool.linkOf slot 0 = Link.cleared → after.linkOf slot 0 = Link.cleared)
    (back? : ∀ slot, after.back? slot = pool.back? slot) :
    Consistent line lessFree moreFresh pending others after where
  strung := strung
  accounted := accounted
  occupied slot member inFree := consistent.occupied slot member (fewer slot inFree)
  covered slot inside := by
    rw [size] at inside
    rcases consistent.covered slot inside with inSpine | isFresh | isFree | isCleared
    · exact Or.inl inSpine
    · exact Or.inr ((known slot (Or.inl isFresh)).imp_right Or.inl)
    · exact Or.inr ((known slot (Or.inr isFree)).imp_right Or.inl)
    · exact Or.inr (Or.inr (Or.inr (cleared slot isCleared)))
  linkedPending := consistent.linkedPending
  pendingKnown slot isPending := (consistent.pendingKnown slot isPending).imp_right (cleared slot)
  bare slot := (back? slot).trans (consistent.bare slot)

/-! ### Giving up counts -/

theorem not_mem_of_not_pending (consistent : Consistent line free fresh pending held pool)
    (notPending : pending slot = false) : slot ∉ line := fun member => by
  rw [consistent.linkedPending slot member] at notPending
  exact Bool.false_ne_true notPending.symm

/-- Giving up a count may free nodes that were taken off the list; the others stay as they are. -/
theorem release_ends (consistent : Consistent line free fresh pending (addCount held slot) pool)
    (inside : slot < pool.size) :
    Ends (Pool.release slot) pool fun _ after => ∃ laterFree,
      Consistent line laterFree fresh pending held after ∧ Alike pending pool after := by
  have counted : pool.Accounted free
      (addCount (fun other => held other + placeCount pending other) slot) :=
    consistent.accounted.congr fun other _ => addCount_add _ _ _ other
  refine (Pool.release_ends Nat.zero_lt_one counted inside).imp fun _ after released => ?_
  obtain ⟨freed, released⟩ := released
  have gone : ∀ other ∈ freed, isSentinel other = false ∧ pending other = false :=
    fun _ member => released.without_place member
  have stays : ∀ other ∈ spine line, other ∉ freed := by
    intro other member inFreed
    obtain ⟨inner, notPending⟩ := gone other inFreed
    exact consistent.not_mem_of_not_pending notPending (mem_of_mem_spine member inner)
  have links : ∀ other, other ∉ freed → after.linkOf other 0 = pool.linkOf other 0 :=
    fun other kept => released.links other kept 0
  have strung := consistent.strung
  have pendingStays : ∀ other, pending other = true → other ∉ freed := by
    intro other isPending inFreed
    rw [(gone other inFreed).2] at isPending
    exact Bool.false_ne_true isPending
  refine ⟨freed ++ free, ⟨strung.congr released.size (fun other _ => keyOf_congr
    (released.body other)) (fun other member => released.next?_of_not_mem
      (stays other (mem_spine_of_mem_cons member)) 0) ?headUnmarked ?tailNil,
    released.accounted, ?occupied, ?covered, consistent.linkedPending, ?pendingKnown, ?bare⟩,
    released.size, fun other _ => released.body other, ?marked, ?cleared⟩
  case headUnmarked =>
    rw [marked_congr (links headSlot (stays headSlot (head_mem_spine line)))]
    exact strung.headUnmarked
  case tailNil =>
    rw [links tailSlot (stays tailSlot (tail_mem_spine line))]
    exact strung.tailNil
  case occupied =>
    intro other member inFree
    rcases List.mem_append.mp inFree with inFreed | wasFree
    · exact stays other member inFreed
    · exact consistent.occupied other member wasFree
  case covered =>
    intro other otherInside
    rw [released.size] at otherInside
    by_cases inFreed : other ∈ freed
    · exact Or.inr (Or.inr (Or.inl (List.mem_append_left _ inFreed)))
    · rw [links other inFreed]
      refine (consistent.covered other otherInside).imp_right (Or.imp_right (Or.imp_left ?_))
      exact List.mem_append_right _
  case pendingKnown =>
    intro other isPending
    rw [links other (pendingStays other isPending)]
    exact consistent.pendingKnown other isPending
  case bare =>
    intro other
    by_cases inFreed : other ∈ freed
    · exact released.accounted.bare other (List.mem_append_left _ inFreed)
    · rw [released.back?_of_not_mem inFreed]
      exact consistent.bare other
  case marked =>
    intro other isPending
    exact marked_congr (links other (pendingStays other isPending))
  case cleared =>
    intro other isPending off
    rw [links other (pendingStays other isPending)]
    exact off

/-- Giving up a count on each of some nodes. -/
theorem releaseAll_ends (slots : List Nat) {free : List Nat} {pool : Pool 1 Entry}
    (consistent : Consistent line free fresh pending
      (fun slot => held slot + slots.count slot) pool)
    (inside : ∀ slot ∈ slots, slot < pool.size) :
    Ends (releaseAll slots) pool fun _ after => ∃ laterFree,
      Consistent line laterFree fresh pending held after ∧ Alike pending pool after := by
  induction slots generalizing free pool with
  | nil => exact Ends.pure ⟨free, consistent.congr fun _ => rfl, Alike.refl _ _⟩
  | cons slot rest inductionHypothesis =>
    have counted : Consistent line free fresh pending
        (addCount (fun other => held other + rest.count other) slot) pool :=
      consistent.congr fun other => addCount_count held slot rest other
    unfold releaseAll
    refine Ends.andThen (counted.release_ends (inside slot List.mem_cons_self))
      fun _ middle released => ?_
    obtain ⟨middleFree, first, alike⟩ := released
    refine (inductionHypothesis first fun other member => ?_).imp fun _ after released => ?_
    · rw [alike.size]
      exact inside other (List.mem_cons_of_mem _ member)
    · obtain ⟨laterFree, second, alikeLater⟩ := released
      exact ⟨laterFree, second, alike.trans alikeLater⟩

end Consistent

end SortedList

end PooledContainers
