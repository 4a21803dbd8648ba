/-
What walks do to a pool besides answering. They finish deletions that they meet: they mark links of
nodes that are deleted, swing links past such nodes, and leave the links of those cleared. They hold
nodes for a while, and counters tell by how many counts. All the rest stays as it was, the line of
the nodes too, since whatever a walk meets is held by something that outlasts the walk.
-/

import Mathlib.Logic.Relation
import PooledContainers.Proofs.Pool.Counting
import PooledContainers.Proofs.Threads

namespace PooledContainers

open Line Operation

variable {levels : Nat} {Body : Type} [Inhabited Body]

/-! ### Tidying -/

/-- What a walk writes at a time. It marks a link of a dead node; or it swings a link that leads to
a dead node on to that node's successor, and leaves the node's own link cleared; or it counts. Links
are written at levels from one up only. -/
inductive Tidying (dead : Nat → Prop) (level : Nat) :
    Pool levels Body → Pool levels Body → Prop
  | mark {pool : Pool levels Body} {slot height : Nat} (isDead : dead slot)
      (levelLe : level ≤ height) :
    Tidying dead level pool
      (pool.withLink slot height ((pool.linkOf slot height).setMark true))
  | bypass {pool : Pool levels Body} {prev node next height : Nat} (isDead : dead node)
      (levelLe : level ≤ height) (prevTo : pool.linkOf prev height = Link.ofSlot node)
      (nodeTo : pool.next? height node = some next) :
    Tidying dead level pool (pool.bypassed prev node next height)
  | count {pool : Pool levels Body} (slot counter : Nat) :
    Tidying dead level pool (pool.recount slot counter)

theorem Tidying.weaken {dead : Nat → Prop} {level lower : Nat} {pool after : Pool levels Body}
    (tidying : Tidying dead level pool after) (levelLe : lower ≤ level) :
    Tidying dead lower pool after := by
  cases tidying with
  | mark isDead high => exact Tidying.mark isDead (Nat.le_trans levelLe high)
  | bypass isDead high prevTo nodeTo =>
    exact Tidying.bypass isDead (Nat.le_trans levelLe high) prevTo nodeTo
  | count slot counter => exact Tidying.count slot counter

/-- A pool has become another one by finishing deletions of nodes that are dead, at levels from
one up and at ranks up to a bound. -/
structure Tidied (line : List Nat) (dead : Nat → Prop) (level bound : Nat)
    (pool after : Pool levels Body) : Prop where
  size : after.size = pool.size
  freeHead : after.freeHead = pool.freeHead
  body : ∀ slot, after.bodyOf slot = pool.bodyOf slot
  back : ∀ slot, after.backOf slot = pool.backOf slot
  /-- Only links of the head and of nodes of the line change, -/
  outside : ∀ slot, slot ∉ headSlot :: line → ∀ height,
    after.linkOf slot height = pool.linkOf slot height
  /-- from the level up, -/
  below : ∀ slot height, height < level → after.linkOf slot height = pool.linkOf slot height
  /-- and not behind the bound. -/
  behind : ∀ slot, bound < rank line slot → ∀ height,
    after.linkOf slot height = pool.linkOf slot height
  /-- Nothing comes to be linked. -/
  linked : ∀ slot height, after.Linked height slot → pool.Linked height slot
  /-- What is not dead stays linked. -/
  kept : ∀ slot, ¬ dead slot → ∀ height, pool.Linked height slot → after.Linked height slot
  /-- Marks stay. -/
  marked : ∀ slot height, (pool.linkOf slot height).isMarked = true →
    (after.linkOf slot height).isMarked = true
  /-- What is not dead is not marked. -/
  unmarked : ∀ slot, ¬ dead slot → ∀ height,
    (after.linkOf slot height).isMarked = (pool.linkOf slot height).isMarked
  /-- Links to nothing, never set, stay so, and no link becomes one. -/
  nil : ∀ slot height, after.linkOf slot height = Link.nil ↔ pool.linkOf slot height = Link.nil
  /-- All that was written finished deletions. -/
  written : Relation.ReflTransGen (Tidying dead level) pool after

namespace Tidied

variable {line : List Nat} {dead : Nat → Prop} {level bound : Nat}
  {pool middle after : Pool levels Body}

theorem refl (line : List Nat) (dead : Nat → Prop) (level bound : Nat)
    (pool : Pool levels Body) : Tidied line dead level bound pool pool where
  size := rfl
  freeHead := rfl
  body _ := rfl
  back _ := rfl
  outside _ _ _ := rfl
  below _ _ _ := rfl
  behind _ _ _ := rfl
  linked _ _ linked := linked
  kept _ _ _ linked := linked
  marked _ _ marked := marked
  unmarked _ _ _ := rfl
  nil _ _ := Iff.rfl
  written := .refl

theorem trans (first : Tidied line dead level bound pool middle)
    (second : Tidied line dead level bound middle after) :
    Tidied line dead level bound pool after where
  size := second.size.trans first.size
  freeHead := second.freeHead.trans first.freeHead
  body slot := (second.body slot).trans (first.body slot)
  back slot := (second.back slot).trans (first.back slot)
  outside slot absent height :=
    (second.outside slot absent height).trans (first.outside slot absent height)
  below slot height low := (second.below slot height low).trans (first.below slot height low)
  behind slot far height := (second.behind slot far height).trans (first.behind slot far height)
  linked slot height linked := first.linked slot height (second.linked slot height linked)
  kept slot alive height linked :=
    second.kept slot alive height (first.kept slot alive height linked)
  marked slot height marked := second.marked slot height (first.marked slot height marked)
  unmarked slot alive height :=
    (second.unmarked slot alive height).trans (first.unmarked slot alive height)
  nil slot height := (second.nil slot height).trans (first.nil slot height)
  written := first.written.trans second.written

theorem weaken {lower further : Nat} (tidied : Tidied line dead level bound pool after)
    (levelLe : lower ≤ level) (boundLe : bound ≤ further) :
    Tidied line dead lower further pool after :=
  { tidied with
    below := fun slot height low => tidied.below slot height (Nat.lt_of_lt_of_le low levelLe)
    behind := fun slot far => tidied.behind slot (Nat.lt_of_le_of_lt boundLe far)
    written := Relation.ReflTransGen.mono (fun _ _ (tidying : Tidying dead level _ _) =>
      tidying.weaken levelLe) _ _ tidied.written }

/-- Counters do not matter. -/
theorem recount (tidied : Tidied line dead level bound pool after) (slot counter : Nat) :
    Tidied line dead level bound pool (after.recount slot counter) where
  size := (Pool.size_recount slot counter).trans tidied.size
  freeHead := tidied.freeHead
  body other := (Pool.bodyOf_recount slot counter other).trans (tidied.body other)
  back other := (Pool.backOf_recount slot counter other).trans (tidied.back other)
  outside other absent height :=
    (Pool.linkOf_recount slot counter other height).trans (tidied.outside other absent height)
  below other height low :=
    (Pool.linkOf_recount slot counter other height).trans (tidied.below other height low)
  behind other far height :=
    (Pool.linkOf_recount slot counter other height).trans (tidied.behind other far height)
  linked other height linked :=
    tidied.linked other height ((Pool.linked_recount after slot counter height other).mp linked)
  kept other alive height linked :=
    (Pool.linked_recount after slot counter height other).mpr
      (tidied.kept other alive height linked)
  marked other height marked := by
    rw [Pool.linkOf_recount]
    exact tidied.marked other height marked
  unmarked other alive height := by
    rw [Pool.linkOf_recount]
    exact tidied.unmarked other alive height
  nil other height := by
    rw [Pool.linkOf_recount]
    exact tidied.nil other height
  written := tidied.written.tail (.count slot counter)

theorem of_recount (line : List Nat) (dead : Nat → Prop) (level bound : Nat)
    (pool : Pool levels Body) (slot counter : Nat) :
    Tidied line dead level bound pool (pool.recount slot counter) :=
  (refl line dead level bound pool).recount slot counter

theorem linkOf_ne_nil (tidied : Tidied line dead level bound pool after) {slot height : Nat}
    (there : pool.linkOf slot height ≠ Link.nil) : after.linkOf slot height ≠ Link.nil :=
  fun nil => there ((tidied.nil slot height).mp nil)

/-- What was taken off a level stays off it. -/
theorem cleared (tidied : Tidied line dead level bound pool after) {slot height : Nat}
    (cleared : pool.linkOf slot height = Link.cleared) :
    after.linkOf slot height = Link.cleared := by
  have nowhere : (after.linkOf slot height).slot? = none :=
    Option.not_isSome_iff_eq_none.mp fun linked =>
      Pool.not_linked_of_cleared cleared (tidied.linked slot height linked)
  refine (Link.eq_nil_or_eq_cleared nowhere).resolve_left fun nil => ?_
  exact Link.cleared_ne_nil (cleared.symm.trans ((tidied.nil slot height).mp nil))

/-- Marking a link of a dead node. -/
theorem mark {slot height : Nat} (inside : slot < pool.size) (reached : height < levels)
    (member : slot ∈ line) (isDead : dead slot) (levelLe : level ≤ height)
    (near : rank line slot ≤ bound) (there : pool.linkOf slot height ≠ Link.nil) :
    Tidied line dead level bound pool
      (pool.withLink slot height ((pool.linkOf slot height).setMark true)) := by
  have linkOf : ∀ other otherHeight,
      (pool.withLink slot height ((pool.linkOf slot height).setMark true)).linkOf other
          otherHeight =
        if other = slot ∧ otherHeight = height then (pool.linkOf slot height).setMark true
        else pool.linkOf other otherHeight := Pool.linkOf_withLink inside reached
  have elsewhere {other otherHeight : Nat} (apart : other = slot → otherHeight ≠ height) :
      (pool.withLink slot height ((pool.linkOf slot height).setMark true)).linkOf other
          otherHeight = pool.linkOf other otherHeight := by
    rw [linkOf, if_neg fun same => apart same.1 same.2]
  refine ⟨Pool.size_withLink _ _ _, rfl, Pool.bodyOf_withLink inside, Pool.backOf_withLink inside,
    ?outside, ?below, ?behind, ?linked, ?kept, ?marked, ?unmarked, ?nil,
    .single (.mark isDead levelLe)⟩
  case outside =>
    intro other absent otherHeight
    exact elsewhere fun same => absurd (same ▸ List.mem_cons_of_mem _ member) absent
  case below =>
    intro other otherHeight low
    exact elsewhere fun _ => Nat.ne_of_lt (Nat.lt_of_lt_of_le low levelLe)
  case behind =>
    intro other far otherHeight
    exact elsewhere fun same => absurd (same ▸ far) (Nat.not_lt_of_le near)
  case linked =>
    intro other otherHeight linked
    exact linked.congr (Pool.next?_marked inside reached otherHeight other).symm
  case kept =>
    intro other _ otherHeight linked
    exact linked.congr (Pool.next?_marked inside reached otherHeight other)
  case marked =>
    intro other otherHeight marked
    rw [linkOf]
    split
    next => exact Link.isMarked_setMark _ true
    next => exact marked
  case unmarked =>
    intro other alive otherHeight
    rw [elsewhere fun same : other = slot => absurd (same ▸ isDead) alive]
  case nil =>
    intro other otherHeight
    rw [linkOf]
    split
    next same =>
      rw [same.1, same.2]
      exact iff_of_false (Link.setMark_true_ne_nil _) there
    next => exact Iff.rfl

/-- Swinging the link of a slot past a dead node that it names. -/
theorem bypass {prev node next height : Nat} (reached : height < levels)
    (prevInside : prev < pool.size) (nodeInside : node < pool.size)
    (prevMember : prev ∈ headSlot :: line) (nodeMember : node ∈ line) (isDead : dead node)
    (levelLe : level ≤ height) (prevBefore : rank line prev < rank line node)
    (near : rank line node ≤ bound) (prevTo : pool.linkOf prev height = Link.ofSlot node)
    (nodeTo : pool.next? height node = some next) :
    Tidied line dead level bound pool (pool.bypassed prev node next height) := by
  have nextLimit : next < Link.slotLimit := Link.slot_lt_of_slot? nodeTo
  have nodeLimit : node < Link.slotLimit := Pool.size_lt_slotLimit nodeInside
  have prevNamed : pool.next? height prev = some node := Pool.next?_of_linkOf prevTo nodeLimit
  have linkOf := Pool.linkOf_bypassed reached prevInside nodeInside next
  have elsewhere {other otherHeight : Nat}
      (apart : otherHeight = height → other ≠ node ∧ other ≠ prev) :
      (pool.bypassed prev node next height).linkOf other otherHeight =
        pool.linkOf other otherHeight :=
    Pool.linkOf_bypassed_of_ne reached prevInside nodeInside
      (fun same => (apart same.2).2 same.1) fun same => (apart same.2).1 same.1
  have nearPrev : rank line prev ≤ bound := Nat.le_of_lt (Nat.lt_of_lt_of_le prevBefore near)
  refine ⟨?size, rfl, ?body, ?back, ?outside, ?below, ?behind, ?linked, ?kept, ?marked, ?unmarked,
    ?nil, .single (.bypass isDead levelLe prevTo nodeTo)⟩
  case size => exact Pool.size_bypassed prev node next height
  case body => exact Pool.bodyOf_bypassed prevInside nodeInside
  case back => exact Pool.backOf_bypassed prevInside nodeInside
  case outside =>
    intro other absent otherHeight
    exact elsewhere fun _ => ⟨fun same => absent (same ▸ List.mem_cons_of_mem _ nodeMember),
      fun same => absent (same ▸ prevMember)⟩
  case below =>
    intro other otherHeight low
    exact elsewhere fun same => absurd (same ▸ low) (Nat.not_lt_of_le levelLe)
  case behind =>
    intro other far otherHeight
    exact elsewhere fun _ => ⟨fun same => Nat.not_lt_of_le near (same ▸ far),
      fun same => Nat.not_lt_of_le nearPrev (same ▸ far)⟩
  case linked =>
    intro other otherHeight linked
    exact ((Pool.linked_bypassed_iff reached prevInside nodeInside prevTo nodeTo).mp linked).2
  case kept =>
    intro other alive otherHeight linked
    exact (Pool.linked_bypassed_iff reached prevInside nodeInside prevTo nodeTo).mpr
      ⟨fun same => alive (same.1 ▸ isDead), linked⟩
  case marked =>
    intro other otherHeight marked
    rw [linkOf]
    split
    next => exact Link.isMarked_cleared
    next =>
      split
      next isPrev =>
        rw [isPrev.1, isPrev.2, prevTo, Link.isMarked_ofSlot nodeLimit] at marked
        exact absurd marked Bool.false_ne_true
      next => exact marked
  case unmarked =>
    intro other alive otherHeight
    rw [linkOf, if_neg fun same : other = node ∧ otherHeight = height =>
      alive (same.1 ▸ isDead)]
    split
    next isPrev =>
      rw [isPrev.1, isPrev.2, prevTo, Link.isMarked_ofSlot nodeLimit,
        Link.isMarked_ofSlot nextLimit]
    next => rfl
  case nil =>
    intro other otherHeight
    rw [linkOf]
    split
    next isNode =>
      rw [isNode.1, isNode.2]
      exact iff_of_false Link.cleared_ne_nil (Pool.Linked.of_next? nodeTo).ne_nil
    next =>
      split
      next isPrev =>
        rw [isPrev.1, isPrev.2]
        exact iff_of_false (Link.ofSlot_ne_nil nextLimit) (Pool.Linked.of_next? prevNamed).ne_nil
      next => exact Iff.rfl

end Tidied

/-! ### Holding nodes for a while -/

/-- Every counter shows what it did at a start, and twice the counts held since. -/
def Held (base : Nat → Nat) (temporary : List Nat) (pool : Pool levels Body) : Prop :=
  ∀ slot < pool.size, pool.counterOf slot = base slot + 2 * temporary.count slot

namespace Held

variable {base : Nat → Nat} {temporary : List Nat} {pool after : Pool levels Body} {slot : Nat}

theorem perm {others : List Nat} (held : Held base temporary pool)
    (permutation : temporary.Perm others) : Held base others pool := by
  intro slot inside
  rw [held slot inside, permutation.count_eq]

theorem congr (held : Held base temporary pool) (size : after.size = pool.size)
    (same : ∀ slot, after.counterOf slot = pool.counterOf slot) : Held base temporary after := by
  intro slot inside
  rw [same, held slot (size ▸ inside)]

theorem retained (held : Held base temporary pool) (inside : slot < pool.size) :
    Held base (slot :: temporary) (pool.retained slot) := by
  intro other otherInside
  rw [Pool.size_recount] at otherInside
  rw [Pool.counterOf_recount _ _ inside, List.count_cons]
  split
  next same =>
    rw [same, held slot inside]
    simp
    omega
  next apart =>
    rw [held other otherInside, if_neg (by simpa using Ne.symm apart)]
    rfl

theorem surrendered (held : Held base (slot :: temporary) pool) (inside : slot < pool.size) :
    Held base temporary (pool.surrendered slot) := by
  intro other otherInside
  rw [Pool.size_recount] at otherInside
  rw [Pool.counterOf_recount _ _ inside]
  split
  next same =>
    rw [same, held slot inside, List.count_cons_self]
    omega
  next apart =>
    rw [held other otherInside, List.count_cons_of_ne (Ne.symm apart)]

/-- A count that a walk took is given up without reclaiming the node, since others hold it. -/
theorem release_ends {condition : Unit → Pool levels Body → Prop}
    (held : Held base (slot :: temporary) pool) (inside : slot < pool.size)
    (outlasting : 2 ≤ base slot)
    (holds : Held base temporary (pool.surrendered slot) → condition () (pool.surrendered slot)) :
    Ends (Pool.release slot) pool condition := by
  refine Pool.release_ends_of_lt inside ?_ (holds (held.surrendered inside))
  rw [held slot inside, List.count_cons_self]
  omega

/-- Two counts that a walk took are given up one after the other. -/
theorem releaseBoth_ends {first second : Nat} {condition : Unit → Pool levels Body → Prop}
    (held : Held base (first :: second :: temporary) pool) (firstInside : first < pool.size)
    (secondInside : second < pool.size) (firstOutlasting : 2 ≤ base first)
    (secondOutlasting : 2 ≤ base second)
    (holds : Held base (second :: temporary) (pool.surrendered first) →
      Held base temporary ((pool.surrendered first).surrendered second) →
        condition () ((pool.surrendered first).surrendered second)) :
    Ends (Pool.releaseAll [first, second]) pool condition := by
  unfold Pool.releaseAll Pool.releaseAll Pool.releaseAll
  refine Ends.bind (held.release_ends firstInside firstOutlasting fun released => ?_)
  have stillInside : second < (pool.surrendered first).size := by rwa [Pool.size_recount]
  exact Ends.bind (released.release_ends stillInside secondOutlasting fun done =>
    Ends.pure (holds released done))

end Held

/-! ### Freeing nodes -/

theorem Pool.Released.next?_of_not_mem {free freed : List Nat} {outside : Nat → Nat}
    {pool after : Pool levels Body} {slot : Nat}
    (released : Pool.Released free outside freed pool after) (kept : slot ∉ freed) (level : Nat) :
    after.next? level slot = pool.next? level slot :=
  Pool.next?_congr (released.links slot kept level)

end PooledContainers
