/-
A pool as it is reserved. The first slots are held by one count each, all others are free in the
order of their slots, and nothing is linked or referred back to. Storage is granted exactly below
the limit of the kind of node, and what is refused is told by its number of nodes.
-/

import PooledContainers.Proofs.Pool.Counting
import PooledContainers.Sentinel

namespace PooledContainers

namespace Pool

variable {levels : Nat} {Body : Type} [Inhabited Body] {held size : Nat}
  {bound : size < Link.slotLimit} {back : Option Link} {body : Body}

section Readings

variable {slot : Nat}

omit [Inhabited Body] in
theorem size_threaded : (threaded held size bound back body : Pool levels Body).size = size :=
  Array.size_ofFn

theorem nodeOf_threaded (inside : slot < size) :
    (threaded held size bound back body : Pool levels Body).nodeOf slot =
      if slot < held then heldNode back body else freeNode back body (linkAfter size slot) := by
  unfold nodeOf node? threaded
  rw [Array.getElem?_eq_getElem (by simpa using inside), Array.getElem_ofFn]
  rfl

theorem counterOf_threaded (inside : slot < size) :
    (threaded held size bound back body : Pool levels Body).counterOf slot =
      if slot < held then 2 else 1 := by
  unfold counterOf
  rw [nodeOf_threaded inside]
  split <;> rfl

theorem backOf_threaded (inside : slot < size) :
    (threaded held size bound back body : Pool levels Body).backOf slot = back := by
  unfold backOf
  rw [nodeOf_threaded inside]
  split <;> rfl

theorem back?_threaded (nowhere : back.bind Link.slot? = none) (slot : Nat) :
    (threaded held size bound back body : Pool levels Body).back? slot = none := by
  by_cases inside : slot < size
  · unfold back?
    rw [backOf_threaded inside]
    exact nowhere
  · have absent : (threaded held size bound back body : Pool levels Body).node? slot = none :=
      Array.getElem?_eq_none (by simpa [threaded] using Nat.le_of_not_lt inside)
    unfold back? backOf nodeOf
    rw [absent]
    rfl

theorem linkOf_threaded_of_held (isHeld : slot < held) (inside : slot < size) (level : Nat) :
    (threaded held size bound back body : Pool levels Body).linkOf slot level = Link.nil := by
  unfold linkOf
  rw [nodeOf_threaded inside, if_pos isHeld]
  show ((Vector.replicate levels Link.nil)[level]?).getD Link.nil = Link.nil
  rw [Vector.getElem?_replicate]
  split <;> rfl

theorem linkOf_threaded_of_free (hasLevel : 0 < levels) (isFree : held ≤ slot)
    (inside : slot < size) (level : Nat) :
    (threaded held size bound back body : Pool levels Body).linkOf slot level =
      if level = 0 then linkAfter size slot else Link.nil := by
  unfold linkOf
  rw [nodeOf_threaded inside, if_neg (Nat.not_lt_of_le isFree)]
  show ((Node.freeLinks levels (linkAfter size slot))[level]?).getD Link.nil = _
  unfold Node.freeLinks
  by_cases bottom : level = 0
  · subst bottom
    rw [if_pos rfl, Vector.getElem?_setIfInBounds_self_of_lt hasLevel]
    rfl
  · rw [if_neg bottom, Vector.getElem?_setIfInBounds_ne (Ne.symm bottom),
      Vector.getElem?_replicate]
    split <;> rfl

end Readings

/-- The free slots are threaded in their order. -/
theorem freeChain_threaded (hasLevel : 0 < levels) (count : Nat) {first : Nat}
    (isFree : held ≤ first)
    (upTo : first + count = size) :
    (threaded held size bound back body : Pool levels Body).FreeChain
      (if first < size then Link.ofSlot first else Link.nil) (List.range' first count) := by
  induction count generalizing first with
  | zero => exact if_neg (by omega)
  | succ count inductionHypothesis =>
    refine ⟨if_pos (by omega), ?_⟩
    rw [linkOf_threaded_of_free hasLevel isFree (by omega), if_pos rfl]
    exact inductionHypothesis (by omega) (by omega)

/-- A reserved pool is in order: what is not held is free. -/
theorem accounted_threaded (hasLevel : 0 < levels) (fits : held ≤ size)
    (nowhere : back.bind Link.slot? = none) :
    (threaded held size bound back body : Pool levels Body).Accounted
      (List.range' held (size - held)) fun slot => if slot < held then 1 else 0 := by
  have mem_iff : ∀ slot < size, slot ∈ List.range' held (size - held) ↔ ¬ slot < held := by
    intro slot inside
    rw [List.mem_range'_1]
    omega
  have inside : ∀ slot ∈ List.range' held (size - held), held ≤ slot ∧ slot < size := by
    intro slot member
    rw [List.mem_range'_1] at member
    omega
  have unnamed : ∀ slot,
      (threaded held size bound back body : Pool levels Body).backCount slot = 0 := by
    intro slot
    unfold backCount
    rw [List.countP_eq_zero]
    intro other _
    rw [back?_threaded nowhere]
    simp
  refine ⟨⟨fun slot slotInside => ?counter, fun slot slotInside => ?held,
    fun slot member => ?inside, List.nodup_range', ?chain,
    fun slot _ => back?_threaded nowhere slot, fun slot member level above => ?blank,
    fun slot _ other names => ?backInside⟩, fun slot member => ?idle⟩
  case counter =>
    rw [size_threaded] at slotInside
    rw [counterOf_threaded slotInside, unnamed]
    by_cases isHeld : slot < held
    · rw [if_pos isHeld, if_pos isHeld, if_neg fun isFree =>
        (mem_iff slot slotInside).mp isFree isHeld]
    · rw [if_neg isHeld, if_neg isHeld, if_pos ((mem_iff slot slotInside).mpr isHeld)]
  case held =>
    rw [size_threaded] at slotInside
    rw [mem_iff slot slotInside, not_not]
    intro isHeld
    rw [if_pos isHeld]
    exact Nat.add_pos_left Nat.one_pos _
  case idle =>
    rw [unnamed, if_neg (Nat.not_lt.mpr (inside slot member).1)]
  case inside =>
    rw [size_threaded]
    exact (inside slot member).2
  case chain => exact freeChain_threaded hasLevel (size - held) (Nat.le_refl held) (by omega)
  case blank =>
    obtain ⟨isFree, slotInside⟩ := inside slot member
    rw [linkOf_threaded_of_free hasLevel isFree slotInside, if_neg (Nat.ne_of_gt above)]
  case backInside =>
    rw [back?_threaded nowhere] at names
    exact absurd names (by simp)

section Granting

variable [NodeKind levels Body]

omit [Inhabited Body] in
theorem reserve_of_lt (granted : size < NodeKind.limit levels Body) :
    reserve held size back body = .ok (threaded held size
      (Nat.lt_of_lt_of_le granted NodeKind.limit_le) back body : Pool levels Body) :=
  dif_pos granted

omit [Inhabited Body] in
theorem reserve_of_le (refused : NodeKind.limit levels Body ≤ size) :
    (reserve held size back body : Except PoolError (Pool levels Body)) =
      .error (.unreservable size) :=
  dif_neg (Nat.not_lt.mpr refused)

end Granting

/-- What holds of the nodes of a container before its sentinels are linked. -/
structure Reserved (back : Option Link) (free : List Nat) (pool : Pool levels Body) : Prop where
  enough : sentinelCount ≤ pool.size
  accounted : pool.Accounted free fun slot => if slot < sentinelCount then 1 else 0
  mem_iff : ∀ slot < pool.size, slot ∈ free ↔ ¬ slot < sentinelCount
  back : ∀ slot < pool.size, pool.backOf slot = back
  nowhere : ∀ slot, pool.back? slot = none
  tailNil : ∀ level, pool.linkOf tailSlot level = Link.nil

theorem reserved_threaded (hasLevel : 0 < levels) (body : Body)
    (nowhere : back.bind Link.slot? = none) (enough : sentinelCount ≤ size) :
    Reserved back (List.range' sentinelCount (size - sentinelCount))
      (threaded sentinelCount size bound back body : Pool levels Body) where
  enough := by rwa [size_threaded]
  accounted := accounted_threaded hasLevel enough nowhere
  mem_iff slot inside := by
    rw [size_threaded] at inside
    rw [List.mem_range'_1]
    omega
  back slot inside := by
    rw [size_threaded] at inside
    exact backOf_threaded inside
  nowhere := back?_threaded nowhere
  tailNil := linkOf_threaded_of_held (by decide) (Nat.lt_of_lt_of_le (by decide) enough)

end Pool

/-! ### The nodes of a container -/

section Containers

variable {levels : Nat} {Body : Type} [NodeKind levels Body] {capacity : UInt64}
  {back : Option Link} {body : Body}

theorem reserveNodes_of_lt
    (granted : capacity.toNat + sentinelCount < NodeKind.limit levels Body) :
    reserveNodes capacity back body =
      .ok (Pool.threaded sentinelCount (capacity.toNat + sentinelCount)
        (Nat.lt_of_lt_of_le granted NodeKind.limit_le) back body : Pool levels Body) := by
  have fits : capacity.toNat + sentinelCount < UInt64.size :=
    Nat.lt_trans (Nat.lt_of_lt_of_le granted NodeKind.limit_le) (by decide)
  unfold reserveNodes
  rw [if_pos fits, Pool.reserve_of_lt granted]

/-- Nodes that are not granted are refused by their number, or by the largest word if there are more
than fit one. -/
theorem reserveNodes_of_le
    (refused : NodeKind.limit levels Body ≤ capacity.toNat + sentinelCount) :
    (reserveNodes capacity back body : Except ContainerError (Pool levels Body)) =
      .error (.unreservable (min (capacity.toNat + sentinelCount) (UInt64.size - 1))) := by
  unfold reserveNodes
  split
  next fits =>
    rw [Pool.reserve_of_le refused, Nat.min_eq_left (Nat.le_sub_one_of_lt fits)]
    rfl
  next large =>
    rw [Nat.min_eq_right (Nat.le_trans (Nat.sub_le _ _) (Nat.not_lt.mp large))]

/-- The nodes of a container are refused just where there is no storage for them. -/
theorem reserveNodes_eq_error_iff (back : Option Link) (body : Body) {error : ContainerError} :
    (reserveNodes capacity back body : Except ContainerError (Pool levels Body)) = .error error ↔
      NodeKind.limit levels Body ≤ capacity.toNat + sentinelCount ∧
        error = .unreservable (min (capacity.toNat + sentinelCount) (UInt64.size - 1)) := by
  rcases Nat.lt_or_ge (capacity.toNat + sentinelCount) (NodeKind.limit levels Body) with
    granted | refused
  · rw [reserveNodes_of_lt granted]
    exact iff_of_false (by simp) fun both => absurd both.1 (Nat.not_le.mpr granted)
  · rw [reserveNodes_of_le refused]
    exact ⟨fun same => ⟨refused, (Except.error.inj same).symm⟩, fun both => by rw [both.2]⟩

/-- The nodes of a container are reserved as they are asked for, or not at all. -/
theorem reserveNodes_eq_ok [Inhabited Body] {pool : Pool levels Body} (hasLevel : 0 < levels)
    (nowhere : back.bind Link.slot? = none) (made : reserveNodes capacity back body = .ok pool) :
    pool.size = capacity.toNat + sentinelCount ∧ ∃ free, Pool.Reserved back free pool := by
  rcases Nat.lt_or_ge (capacity.toNat + sentinelCount) (NodeKind.limit levels Body) with
    granted | refused
  · rw [reserveNodes_of_lt granted] at made
    rw [← Except.ok.inj made]
    exact ⟨Pool.size_threaded, _, Pool.reserved_threaded hasLevel body nowhere
      (Nat.le_add_left sentinelCount capacity.toNat)⟩
  · rw [reserveNodes_of_le refused] at made
    exact absurd made (by simp)

end Containers

end PooledContainers
