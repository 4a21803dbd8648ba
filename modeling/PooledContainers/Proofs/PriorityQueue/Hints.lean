/-
References back that are out of date. Helping a node that is off a level goes on from the node that
its reference back names, as that one is. If its deletion was committed meanwhile and nobody marked
its link at the level, a walk goes on from a deleted node. Walks do not bring such a pair of nodes
about: before they take a node off a level they finish the deletion of the one that it names.
-/

import PooledContainers.Proofs.PriorityQueue.Ground

namespace PooledContainers

namespace PriorityQueue

open Pool

/-- A node is off a level, and its reference back names a node that reaches the level and is
deleted, but not marked there. -/
structure StaleHint (pool : Pool maxLevels Entry) (level node hint : Nat) : Prop where
  off : pool.linkOf node level = Link.cleared
  back : pool.back? node = some hint
  reaches : level < (pool.bodyOf hint).validHeight
  deleted : Deleted pool hint
  unmarked : (pool.linkOf hint level).isMarked = false

variable {line : List Nat} {dead : Nat → Prop} {bottom bound level node hint : Nat}
  {pool middle after : Pool maxLevels Entry}

theorem staleHint_iff : StaleHint pool level node hint ↔
    pool.linkOf node level = Link.cleared ∧ pool.back? node = some hint ∧
      level < (pool.bodyOf hint).validHeight ∧ Deleted pool hint ∧
      (pool.linkOf hint level).isMarked = false :=
  ⟨fun stale => ⟨stale.off, stale.back, stale.reaches, stale.deleted, stale.unmarked⟩,
    fun ⟨off, back, reaches, deleted, unmarked⟩ => ⟨off, back, reaches, deleted, unmarked⟩⟩

instance (pool : Pool maxLevels Entry) (level node hint : Nat) :
    Decidable (StaleHint pool level node hint) :=
  decidable_of_iff _ staleHint_iff.symm

namespace StaleHint

/-- A pair that is out of date after tidying was so before, if the node was off the level. -/
theorem earlier (stale : StaleHint after level node hint)
    (tidied : Tidied line dead bottom bound pool after)
    (off : pool.linkOf node level = Link.cleared) : StaleHint pool level node hint where
  off := off
  back := (Pool.back?_congr (tidied.back node)).symm.trans stale.back
  reaches := tidied.body hint ▸ stale.reaches
  deleted := by
    have deleted := stale.deleted
    unfold Deleted at deleted ⊢
    rwa [tidied.body] at deleted
  unmarked := Bool.eq_false_iff.mpr fun marked =>
    Bool.eq_false_iff.mp stale.unmarked (tidied.marked hint level marked)

/-- A pair stays out of date until the node that is named gets marked. -/
theorem later (stale : StaleHint pool level node hint)
    (tidied : Tidied line dead bottom bound pool after)
    (unmarked : (after.linkOf hint level).isMarked = false) : StaleHint after level node hint where
  off := tidied.cleared stale.off
  back := (Pool.back?_congr (tidied.back node)).trans stale.back
  reaches := (tidied.body hint).symm ▸ stale.reaches
  deleted := by
    have deleted := stale.deleted
    unfold Deleted at deleted ⊢
    rwa [tidied.body]
  unmarked := unmarked

section Holding

variable {ground : Ground} {temporary : List Nat} (holds : ground.Holds temporary pool)

include holds

/-- Walks change neither the bodies nor the references back of such a pair. -/
theorem of_holds (stale : StaleHint pool level node hint) :
    ground.start.back? node = some hint ∧ level < ground.validHeight hint ∧ ground.Dead hint := by
  obtain ⟨-, back, reaches, deleted, -⟩ := stale
  unfold Deleted at deleted
  rw [holds.tidied.body] at reaches deleted
  rw [Pool.back?_congr (holds.tidied.back node)] at back
  exact ⟨back, reaches, deleted⟩

theorem of_ground (off : pool.linkOf node level = Link.cleared)
    (back : ground.start.back? node = some hint) (reaches : level < ground.validHeight hint)
    (dead : ground.Dead hint) (unmarked : (pool.linkOf hint level).isMarked = false) :
    StaleHint pool level node hint := by
  refine ⟨off, ?_, ?_, ?_, unmarked⟩
  · rw [Pool.back?_congr (holds.tidied.back node)]
    exact back
  · rw [holds.tidied.body]
    exact reaches
  · unfold Deleted
    rw [holds.tidied.body]
    exact dead

end Holding

theorem recount (stale : StaleHint pool level node hint) (slot counter : Nat) :
    StaleHint (pool.recount slot counter) level node hint :=
  stale.later (Tidied.of_recount [] (fun _ => False) 0 0 pool slot counter)
    (by rw [linkOf_recount]; exact stale.unmarked)

end StaleHint

/-! ### What walks keep -/

/-- Whatever is out of date was so before. -/
def Heeded (pool after : Pool maxLevels Entry) : Prop :=
  ∀ level node hint, StaleHint after level node hint → StaleHint pool level node hint

namespace Heeded

theorem refl (pool : Pool maxLevels Entry) : Heeded pool pool := fun _ _ _ stale => stale

theorem trans (first : Heeded pool middle) (second : Heeded middle after) : Heeded pool after :=
  fun level node hint stale => first level node hint (second level node hint stale)

/-- It is enough to look at the nodes that come off a level. -/
theorem of_tidied (tidied : Tidied line dead bottom bound pool after)
    (off : ∀ node level, after.linkOf node level = Link.cleared →
      pool.linkOf node level = Link.cleared ∨ ∀ hint, ¬ StaleHint after level node hint) :
    Heeded pool after := fun level node hint stale =>
  stale.earlier tidied ((off node level stale.off).resolve_right fun none => none hint stale)

theorem recount (heeded : Heeded pool after) (slot counter : Nat) :
    Heeded pool (after.recount slot counter) :=
  heeded.trans (of_tidied (Tidied.of_recount [] (fun _ => False) 0 0 after slot counter)
    fun node level off => Or.inl (by rwa [linkOf_recount] at off))

theorem of_recount (pool : Pool maxLevels Entry) (slot counter : Nat) :
    Heeded pool (pool.recount slot counter) := (refl pool).recount slot counter

/-- Marking a link takes no node off a level. -/
theorem mark {slot height : Nat} (inside : slot < pool.size) (reached : height < maxLevels)
    (there : pool.linkOf slot height ≠ Link.nil)
    (tidied : Tidied line dead bottom bound pool
      (pool.withLink slot height ((pool.linkOf slot height).setMark true))) :
    Heeded pool (pool.withLink slot height ((pool.linkOf slot height).setMark true)) := by
  refine of_tidied tidied fun node level off => Or.inl ?_
  rw [linkOf_withLink inside reached] at off
  split at off
  next same =>
    have nowhere : (pool.linkOf slot height).slot? = none := by
      rw [← Link.slot?_setMark _ true, off, Link.slot?_cleared]
    rw [same.1, same.2]
    exact (Link.eq_nil_or_eq_cleared nowhere).resolve_left there
  next => exact off

/-- A node may come off a level if nothing is out of date about it there. -/
theorem bypass {prev node next height : Nat} (reached : height < maxLevels)
    (prevInside : prev < pool.size) (nodeInside : node < pool.size)
    (nextLimit : next < Link.slotLimit)
    (tidied : Tidied line dead bottom bound pool (pool.bypassed prev node next height))
    (heeded : ∀ hint, ¬ StaleHint (pool.bypassed prev node next height) height node hint) :
    Heeded pool (pool.bypassed prev node next height) := by
  refine of_tidied tidied fun other level off => ?_
  by_cases isNode : other = node ∧ level = height
  · rw [isNode.1, isNode.2]
    exact Or.inr heeded
  · left
    rw [linkOf_bypassed reached prevInside nodeInside, if_neg isNode] at off
    split at off
    next =>
      have leads := Link.slot?_ofSlot nextLimit
      rw [off, Link.slot?_cleared] at leads
      exact absurd leads (by simp)
    next => exact off

end Heeded

/-! ### Where walks go on -/

/-- A walk goes on from a deleted node at a level only if that one is marked there, or named by a
reference back that is out of date. -/
def Ground.Vouched (ground : Ground) (level prev : Nat) (pool : Pool maxLevels Entry) : Prop :=
  ground.Dead prev → (pool.linkOf prev level).isMarked = false →
    ∃ node ∈ ground.line, StaleHint pool level node prev

namespace Ground.Vouched

variable {ground : Ground} {prev : Nat}

theorem of_alive (alive : ¬ ground.Dead prev) (pool : Pool maxLevels Entry) :
    ground.Vouched level prev pool := fun dead => absurd dead alive

theorem tidied (vouched : ground.Vouched level prev pool)
    (tidied : ground.Tidies bottom bound pool after) : ground.Vouched level prev after := by
  intro dead unmarked
  obtain ⟨node, member, stale⟩ := vouched dead (Bool.eq_false_iff.mpr fun marked =>
    Bool.eq_false_iff.mp unmarked (tidied.marked prev level marked))
  exact ⟨node, member, stale.later tidied unmarked⟩

theorem recount (vouched : ground.Vouched level prev pool) (slot counter : Nat) :
    ground.Vouched level prev (pool.recount slot counter) :=
  vouched.tidied (Tidied.of_recount ground.line ground.Dead 0 0 pool slot counter)

end Ground.Vouched

end PriorityQueue

end PooledContainers
