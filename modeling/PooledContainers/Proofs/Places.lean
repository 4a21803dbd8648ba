/-
The counts that keep nodes in a container when nobody holds them: one on each sentinel, and one on
each node that was linked by an insert and whose removal has not been finished. The removals that
are still pending are given by slot.
-/

import PooledContainers.Proofs.Pool.Counting
import PooledContainers.Sentinel

namespace PooledContainers

/-- The counts that stand for a place in a container: one on a sentinel, and one on a node that was
linked and whose removal is pending. -/
def placeCount (pending : Nat → Bool) (slot : Nat) : Nat :=
  (if isSentinel slot then 1 else 0) + if pending slot then 1 else 0

/-- The pending removals but for one that is finished now. -/
def finish (pending : Nat → Bool) (slot : Nat) : Nat → Bool := fun other =>
  pending other && decide (other ≠ slot)

/-- The pending removals and that of one more node. -/
def await (pending : Nat → Bool) (slot : Nat) : Nat → Bool := fun other =>
  pending other || decide (other = slot)

variable {pending : Nat → Bool} {slot : Nat}

/-- A node without a place is not pending and not a sentinel. -/
theorem of_placeCount_eq_zero (none : placeCount pending slot = 0) :
    isSentinel slot = false ∧ pending slot = false := by
  unfold placeCount at none
  constructor
  · cases found : isSentinel slot with
    | false => rfl
    | true =>
      rw [found, if_pos rfl] at none
      omega
  · cases found : pending slot with
    | false => rfl
    | true =>
      rw [found, if_pos rfl] at none
      omega

/-- Nodes that are freed had no place. -/
theorem Pool.Released.without_place {levels : Nat} {Body : Type} [Inhabited Body]
    {free freed : List Nat} {held : Nat → Nat} {pool after : Pool levels Body}
    (released : Released free (fun slot => held slot + placeCount pending slot) freed pool after)
    (member : slot ∈ freed) : isSentinel slot = false ∧ pending slot = false := by
  have inFree : slot ∈ freed ++ free := List.mem_append_left _ member
  have none := (released.accounted.free_iff slot (released.accounted.inside slot inFree)).mp inFree
  exact of_placeCount_eq_zero (show placeCount pending slot = 0 by omega)

/-- At first only the sentinels have places. -/
theorem placeCount_start (slot : Nat) :
    placeCount (fun _ => false) slot = if slot < sentinelCount then 1 else 0 := by
  have low : isSentinel slot = true ↔ slot < sentinelCount := by
    rw [isSentinel_iff]
    unfold headSlot tailSlot sentinelCount
    omega
  unfold placeCount
  simp only [low, if_neg Bool.false_ne_true, Nat.add_zero]

/-! ### Changes of what is pending -/

theorem finish_eq_true_iff {other : Nat} :
    finish pending slot other = true ↔ pending other = true ∧ other ≠ slot := by
  unfold finish
  rw [Bool.and_eq_true, decide_eq_true_eq]

theorem await_eq_true_iff {other : Nat} :
    await pending slot other = true ↔ pending other = true ∨ other = slot := by
  unfold await
  rw [Bool.or_eq_true, decide_eq_true_eq]

theorem finish_await (notPending : pending slot = false) :
    finish (await pending slot) slot = pending := by
  funext other
  rw [Bool.eq_iff_iff, finish_eq_true_iff, await_eq_true_iff]
  constructor
  · rintro ⟨wasPending | same, apart⟩
    · exact wasPending
    · exact absurd same apart
  · intro isPending
    refine ⟨Or.inl isPending, ?_⟩
    rintro rfl
    exact absurd (isPending.symm.trans notPending) (by simp)

/-- The slots below a bound whose removal is pending. -/
def pendingBelow (pending : Nat → Bool) (bound : Nat) : List Nat :=
  (List.range bound).filter pending

theorem mem_pendingBelow {bound : Nat} :
    slot ∈ pendingBelow pending bound ↔ slot < bound ∧ pending slot = true := by
  unfold pendingBelow
  rw [List.mem_filter, List.mem_range]

theorem nodup_pendingBelow (pending : Nat → Bool) (bound : Nat) :
    (pendingBelow pending bound).Nodup := List.nodup_range.filter _

/-- One pending removal less is left when it is finished. -/
theorem length_pendingBelow_finish {bound : Nat} (isPending : pending slot = true)
    (inside : slot < bound) :
    (pendingBelow pending bound).length =
      (pendingBelow (finish pending slot) bound).length + 1 := by
  have apart : slot ∉ pendingBelow (finish pending slot) bound := fun member =>
    (finish_eq_true_iff.mp (mem_pendingBelow.mp member).2).2 rfl
  have permuted : (pendingBelow pending bound).Perm
      (slot :: pendingBelow (finish pending slot) bound) := by
    refine (List.perm_ext_iff_of_nodup (nodup_pendingBelow _ _)
      (List.nodup_cons.mpr ⟨apart, nodup_pendingBelow _ _⟩)).mpr fun other => ?_
    rw [List.mem_cons, mem_pendingBelow, mem_pendingBelow, finish_eq_true_iff]
    by_cases same : other = slot
    · exact iff_of_true (same ▸ ⟨inside, isPending⟩) (Or.inl same)
    · rw [or_iff_right same, and_iff_left same]
  exact permuted.length_eq

/-- One removal more is pending when a node is linked. -/
theorem length_pendingBelow_await {bound : Nat} (notPending : pending slot = false)
    (inside : slot < bound) :
    (pendingBelow (await pending slot) bound).length = (pendingBelow pending bound).length + 1 := by
  have isPending : await pending slot slot = true := await_eq_true_iff.mpr (Or.inr rfl)
  have counted := length_pendingBelow_finish isPending inside
  rwa [finish_await notPending] at counted

/-! ### Counts -/

/-- A removal that is finished gives back the count of its node. -/
theorem placeCount_finish (isPending : pending slot = true) (held : Nat → Nat) (other : Nat) :
    Pool.addCount held slot other + placeCount (finish pending slot) other =
      held other + placeCount pending other := by
  unfold Pool.addCount placeCount finish
  by_cases same : other = slot
  · subst same
    simp [isPending]
    omega
  · simp [same]

/-- A node that is linked takes a count for its place. -/
theorem placeCount_await (notPending : pending slot = false) (held : Nat → Nat) (other : Nat) :
    held other + placeCount (await pending slot) other =
      Pool.addCount held slot other + placeCount pending other := by
  unfold Pool.addCount placeCount await
  by_cases same : other = slot
  · subst same
    simp [notPending]
    omega
  · simp [same]

end PooledContainers
