/-
What the counters of a pool add up to when nobody holds a free node. Then the counter of a node
tells whether it is free, and free is just what nobody holds. Whoever takes counts on nodes that are
not free only keeps it so, and this is what the containers do.
-/

import PooledContainers.Proofs.Pool.Balance

namespace PooledContainers

namespace Pool

open Operation

variable {levels : Nat} {Body : Type} [Inhabited Body]

/-- The books of a pool balance, and nobody holds a free node. -/
structure Accounted (free : List Nat) (outside : Nat → Nat) (pool : Pool levels Body) : Prop
    extends Balanced free outside pool where
  idle : ∀ slot ∈ free, outside slot + pool.backCount slot = 0

variable {pool after : Pool levels Body}

namespace Accounted

variable {free : List Nat} {outside : Nat → Nat}

/-- Free is what nobody holds. -/
theorem free_iff (accounted : Accounted free outside pool) (slot : Nat)
    (inside : slot < pool.size) :
    slot ∈ free ↔ outside slot + pool.backCount slot = 0 := by
  refine ⟨accounted.idle slot, fun none => ?_⟩
  by_contra occupied
  have held := accounted.held slot inside occupied
  omega

theorem congr {others : Nat → Nat} (accounted : Accounted free outside pool)
    (same : ∀ slot < pool.size, others slot = outside slot) : Accounted free others pool where
  toBalanced := accounted.toBalanced.congr same
  idle slot member := by
    rw [same slot (accounted.inside slot member)]
    exact accounted.idle slot member

/-- A change that leaves free nodes and references back alone, and takes further counts on nodes
that are not free. -/
theorem of_frame (accounted : Accounted free outside pool) (extra : Nat → Nat)
    (size : after.size = pool.size) (freeHead : after.freeHead = pool.freeHead)
    (links : ∀ slot ∈ free, ∀ level, after.linkOf slot level = pool.linkOf slot level)
    (back : ∀ slot, after.back? slot = pool.back? slot) (spared : ∀ slot ∈ free, extra slot = 0)
    (counter : ∀ slot < pool.size, after.counterOf slot = pool.counterOf slot + 2 * extra slot) :
    Accounted free (fun slot => outside slot + extra slot) after where
  toBalanced := accounted.toBalanced.of_frame extra size freeHead links back counter
  idle slot member := by
    rw [spared slot member, backCount_congr size back]
    exact accounted.idle slot member

/-- What the free list leads to first is the first free slot. -/
theorem freeHead_slot? (accounted : Accounted free outside pool) :
    pool.freeHead.slot? = free.head? := by
  cases free with
  | nil =>
    rw [show pool.freeHead = Link.nil from accounted.chain]
    exact Link.slot?_nil
  | cons slot rest =>
    rw [show pool.freeHead = Link.ofSlot slot from accounted.chain.1]
    exact Link.slot?_ofSlot (size_lt_slotLimit (accounted.inside slot List.mem_cons_self))

theorem mem_of_first (accounted : Accounted free outside pool) {slot : Nat}
    (first : pool.freeHead.slot? = some slot) : slot ∈ free :=
  List.mem_of_mem_head? (accounted.freeHead_slot? ▸ first)

/-- A slot whose counter is even is held by someone. -/
theorem not_free_iff (accounted : Accounted free outside pool) {slot : Nat}
    (inside : slot < pool.size) : slot ∉ free ↔ pool.counterOf slot % 2 = 0 :=
  accounted.toBalanced.not_free_iff inside

/-- The slots that are not free have two at least in their counters. -/
theorem two_le_counter (accounted : Accounted free outside pool) {slot : Nat}
    (inside : slot < pool.size) (absent : slot ∉ free) : 2 ≤ pool.counterOf slot :=
  accounted.toBalanced.two_le_counter inside absent

/-- Nobody holds a free slot. -/
theorem not_free_of_pos (accounted : Accounted free outside pool) {slot : Nat}
    (some : 0 < outside slot) : slot ∉ free := by
  intro member
  have none := accounted.idle slot member
  omega

/-- No reference back names a free slot. -/
theorem not_free_of_back (accounted : Accounted free outside pool) {slot target : Nat}
    (inside : slot < pool.size) (names : pool.back? slot = some target) : target ∉ free := by
  intro member
  have none := accounted.idle target member
  have counted : 0 < pool.backCount target := List.countP_pos_iff.mpr
    ⟨slot, List.mem_range.mpr inside, decide_eq_true names⟩
  omega

end Accounted

/-! ### Giving up a count -/

/-- A count was given up, and some nodes were put onto the free list because of that. -/
structure Released (free : List Nat) (outside : Nat → Nat) (freed : List Nat)
    (pool after : Pool levels Body) : Prop extends Returned freed pool after where
  accounted : Accounted (freed ++ free) outside after

section Releasing

variable {free freed : List Nat} {outside : Nat → Nat} {slot : Nat}

theorem Released.back?_of_not_mem (released : Released free outside freed pool after)
    (kept : slot ∉ freed) : after.back? slot = pool.back? slot :=
  released.toReturned.back?_of_not_mem kept

/-- Giving up a count. -/
theorem release_ends (hasLevel : 0 < levels)
    (accounted : Accounted free (addCount outside slot) pool) (inside : slot < pool.size) :
    Ends (release slot) pool fun _ after => ∃ freed, Released free outside freed pool after := by
  refine (accounted.toBalanced.release_ends hasLevel inside).imp fun _ after dropped => ?_
  obtain ⟨freed, dropped⟩ := dropped
  refine ⟨freed, dropped.toReturned, dropped.balanced, fun other member => ?_⟩
  rcases List.mem_append.mp member with inFreed | inFree
  · exact dropped.idle other inFreed
  · have none := accounted.idle other inFree
    have fewerBacks := backCount_le dropped.size dropped.fewer other
    unfold addCount at none
    omega

end Releasing

/-! ### Changing a reference back -/

/-- A count held outside turns into one that a reference back holds. -/
theorem Accounted.withBack {free : List Nat} {outside : Nat → Nat} {slot target : Nat}
    (accounted : Accounted free (addCount outside target) pool)
    (inside : slot < pool.size) (targetInside : target < pool.size) (occupied : slot ∉ free)
    (there : (pool.backOf slot).isSome = true) (nowhere : pool.back? slot = none) :
    Accounted free outside (pool.withBack slot (Link.ofSlot target)) where
  toBalanced := accounted.toBalanced.withBack inside targetInside occupied there nowhere
  idle other member := by
    rw [← addCount_add_backCount outside inside targetInside there nowhere]
    exact accounted.idle other member

/-! ### Allocation -/

section Allocation

variable {free : List Nat} {outside : Nat → Nat} {slot : Nat}

/-- The first node came off the free list, with one count and nil links. -/
structure Allocated (rest : List Nat) (outside : Nat → Nat) (slot : Nat)
    (pool after : Pool levels Body) : Prop extends Taken slot pool after where
  accounted : Accounted rest (addCount outside slot) after

/-- Allocation takes the first node off a free list that is not empty. -/
theorem allocate_ends (hasLevel : 0 < levels) {rest : List Nat}
    (accounted : Accounted (slot :: rest) outside pool)
    {condition : Except PoolError Nat → Pool levels Body → Prop}
    (holds : ∀ after, Allocated rest outside slot pool after → condition (.ok slot) after) :
    Ends allocate pool condition := by
  refine accounted.toBalanced.allocate_ends hasLevel fun after taken balanced =>
    holds after ⟨taken, balanced, fun other member => ?_⟩
  have apart : other ≠ slot := fun same =>
    (List.nodup_cons.mp accounted.distinct).1 (same ▸ member)
  have none := accounted.idle other (List.mem_cons_of_mem _ member)
  rw [taken.backCount]
  unfold addCount
  rw [if_neg apart]
  exact none

/-- Allocation from an empty free list changes nothing. -/
theorem allocate_ends_of_nil (accounted : Accounted [] outside pool)
    {condition : Except PoolError Nat → Pool levels Body → Prop}
    (holds : condition (.error (.exhausted pool.size)) pool) : Ends allocate pool condition :=
  accounted.toBalanced.allocate_ends_of_nil holds

end Allocation

end Pool

end PooledContainers
