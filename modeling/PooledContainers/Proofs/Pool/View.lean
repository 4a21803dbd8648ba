/-
A pool is read here through total functions: the link of a slot at a level, its counter, its
reference back and its body, with plain values where there is no such slot or level. An action then
has an equation of its own for each of these readings, and what is said about a pool elsewhere is
said through them alone.
-/

import Mathlib.Data.List.Nodup
import Mathlib.Data.List.Perm.Subperm
import PooledContainers.Link.Lemmas
import PooledContainers.Pool.Actions
import PooledContainers.Proofs.Operation

namespace PooledContainers

/-! ### Slots told apart -/

/-- Slots below a bound that are all different are no more than the bound. -/
theorem length_le_of_forall_lt {slots : List Nat} (distinct : slots.Nodup) {bound : Nat}
    (inside : ∀ slot ∈ slots, slot < bound) : slots.length ≤ bound := by
  have part : slots ⊆ List.range bound := fun slot member => List.mem_range.mpr (inside slot member)
  have fewer := (List.Nodup.subperm distinct part).length_le
  rwa [List.length_range] at fewer

/-! ### Readings -/

instance {levels : Nat} {Body : Type} [Inhabited Body] : Inhabited (Node levels Body) :=
  ⟨⟨0, Vector.replicate levels Link.nil, none, default⟩⟩

namespace Pool

variable {levels : Nat} {Body : Type} [Inhabited Body]

/-- The node of a slot. -/
def nodeOf (pool : Pool levels Body) (slot : Nat) : Node levels Body :=
  (pool.node? slot).getD default

/-- The link of a slot at a level. -/
def linkOf (pool : Pool levels Body) (slot level : Nat) : Link :=
  ((pool.nodeOf slot).links[level]?).getD Link.nil

/-- The counter of a slot. -/
def counterOf (pool : Pool levels Body) (slot : Nat) : Nat := (pool.nodeOf slot).counter

/-- The body of a slot. -/
def bodyOf (pool : Pool levels Body) (slot : Nat) : Body := (pool.nodeOf slot).body

/-- The reference back of a slot, for kinds of node that have one. -/
def backOf (pool : Pool levels Body) (slot : Nat) : Option Link := (pool.nodeOf slot).back

/-- The slot that the reference back of a slot names. -/
def back? (pool : Pool levels Body) (slot : Nat) : Option Nat :=
  (pool.backOf slot).bind Link.slot?

variable {pool : Pool levels Body}

theorem back?_congr {after : Pool levels Body} {slot : Nat}
    (same : after.backOf slot = pool.backOf slot) : after.back? slot = pool.back? slot := by
  unfold back?
  rw [same]

theorem node?_eq_some {slot : Nat} (inside : slot < pool.size) :
    pool.node? slot = some (pool.nodeOf slot) := by
  unfold nodeOf node?
  rw [Array.getElem?_eq_getElem inside]
  rfl

theorem link?_eq_some {slot level : Nat} (inside : slot < pool.size) (reached : level < levels) :
    pool.link? slot level = some (pool.linkOf slot level) := by
  unfold link? linkOf
  rw [node?_eq_some inside, Option.bind_some, Vector.getElem?_eq_getElem reached]
  rfl

/-- A slot past the end reads as having no links. -/
theorem linkOf_of_le {slot : Nat} (outside : pool.size ≤ slot) (level : Nat) :
    pool.linkOf slot level = Link.nil := by
  have absent : pool.node? slot = none := Array.getElem?_eq_none outside
  unfold linkOf nodeOf
  rw [absent]
  show ((Vector.replicate levels Link.nil)[level]?).getD Link.nil = Link.nil
  rw [Vector.getElem?_replicate]
  split <;> rfl

theorem slot_lt_size_of_linkOf_ne_nil {slot level : Nat}
    (there : pool.linkOf slot level ≠ Link.nil) : slot < pool.size :=
  Nat.lt_of_not_le fun outside => there (linkOf_of_le outside level)

omit [Inhabited Body] in
theorem size_lt_slotLimit {slot : Nat} (inside : slot < pool.size) : slot < Link.slotLimit :=
  Nat.lt_trans inside pool.linkable

/-! ### Changes of one node -/

theorem nodeOf_modify (pool : Pool levels Body) {slot : Nat} (inside : slot < pool.size)
    (change : Node levels Body → Node levels Body) (other : Nat) :
    (pool.modify slot change).nodeOf other =
      if other = slot then change (pool.nodeOf slot) else pool.nodeOf other := by
  by_cases same : other = slot
  · subst same
    rw [if_pos rfl, nodeOf, node?_modify_self, node?_eq_some inside]
    rfl
  · rw [if_neg same, nodeOf, node?_modify_other pool slot other change same]
    rfl

/-- Only what a change makes of the node that is there matters. -/
theorem modify_congr {slot : Nat} (inside : slot < pool.size)
    {change other : Node levels Body → Node levels Body}
    (same : change (pool.nodeOf slot) = other (pool.nodeOf slot)) :
    pool.modify slot change = pool.modify slot other := by
  have found : pool.nodeOf slot = pool.nodes[slot] := by
    unfold nodeOf node?
    rw [Array.getElem?_eq_getElem inside, Option.getD_some]
  rw [found] at same
  unfold modify
  congr 1
  refine Array.ext (by simp) fun index bound otherBound => ?_
  rw [Array.getElem_modify, Array.getElem_modify]
  by_cases here : slot = index
  · subst here
    rw [if_pos rfl, if_pos rfl]
    exact same
  · rw [if_neg here, if_neg here]

/-- The pool with another counter at a slot. -/
def recount (pool : Pool levels Body) (slot counter : Nat) : Pool levels Body :=
  pool.modify slot (·.setCounter counter)

/-- The pool with another link at a slot and a level. -/
def withLink (pool : Pool levels Body) (slot level : Nat) (link : Link) : Pool levels Body :=
  pool.modify slot (·.setLink level link)

/-- The pool with another body at a slot. -/
def withBody (pool : Pool levels Body) (slot : Nat) (body : Body) : Pool levels Body :=
  pool.modify slot fun node => { node with body }

/-- The pool with another reference back at a slot. -/
def withBack (pool : Pool levels Body) (slot : Nat) (link : Link) : Pool levels Body :=
  pool.modify slot (·.setBack link)

section Recount

variable (slot counter : Nat)

omit [Inhabited Body] in
@[simp] theorem size_recount : (pool.recount slot counter).size = pool.size :=
  size_modify pool slot _

omit [Inhabited Body] in
@[simp] theorem freeHead_recount : (pool.recount slot counter).freeHead = pool.freeHead := rfl

/-- A change of a counter shows in nothing but the counter. -/
theorem nodeOf_recount (other : Nat) :
    (pool.recount slot counter).nodeOf other =
      (pool.nodeOf other).setCounter
        (if other = slot ∧ slot < pool.size then counter else (pool.nodeOf other).counter) := by
  unfold recount
  by_cases inside : slot < pool.size
  · rw [nodeOf_modify pool inside]
    by_cases same : other = slot
    · subst same
      rw [if_pos rfl, if_pos ⟨rfl, inside⟩]
    · rw [if_neg same, if_neg fun both => same both.1]
      rfl
  · have unchanged : (pool.modify slot (·.setCounter counter)).node? other = pool.node? other := by
      by_cases same : other = slot
      · subst same
        rw [node?_modify_self]
        unfold node?
        rw [Array.getElem?_eq_none (Nat.le_of_not_lt inside)]
        rfl
      · exact node?_modify_other pool slot other _ same
    rw [if_neg fun both => inside both.2]
    show ((pool.modify slot (·.setCounter counter)).node? other).getD default = _
    rw [unchanged]
    rfl

@[simp] theorem linkOf_recount (other level : Nat) :
    (pool.recount slot counter).linkOf other level = pool.linkOf other level := by
  unfold linkOf
  rw [nodeOf_recount]
  rfl

@[simp] theorem bodyOf_recount (other : Nat) :
    (pool.recount slot counter).bodyOf other = pool.bodyOf other := by
  unfold bodyOf
  rw [nodeOf_recount]
  rfl

@[simp] theorem backOf_recount (other : Nat) :
    (pool.recount slot counter).backOf other = pool.backOf other := by
  unfold backOf
  rw [nodeOf_recount]
  rfl

@[simp] theorem back?_recount (other : Nat) :
    (pool.recount slot counter).back? other = pool.back? other :=
  back?_congr (backOf_recount slot counter other)

theorem counterOf_recount (inside : slot < pool.size) (other : Nat) :
    (pool.recount slot counter).counterOf other =
      if other = slot then counter else pool.counterOf other := by
  unfold counterOf
  rw [nodeOf_recount]
  by_cases same : other = slot
  · rw [if_pos ⟨same, inside⟩, if_pos same]
    rfl
  · rw [if_neg fun both => same both.1, if_neg same]
    rfl

end Recount

section WithLink

variable {slot level : Nat} {link : Link}

omit [Inhabited Body] in
@[simp] theorem size_withLink (slot level : Nat) (link : Link) :
    (pool.withLink slot level link).size = pool.size := size_modify pool slot _

theorem linkOf_withLink (inside : slot < pool.size) (reached : level < levels)
    (other height : Nat) :
    (pool.withLink slot level link).linkOf other height =
      if other = slot ∧ height = level then link else pool.linkOf other height := by
  unfold withLink linkOf
  rw [nodeOf_modify pool inside]
  by_cases same : other = slot
  · subst same
    rw [if_pos rfl]
    unfold Node.setLink
    by_cases here : height = level
    · subst here
      rw [if_pos ⟨rfl, rfl⟩, Vector.getElem?_setIfInBounds_self_of_lt reached]
      rfl
    · rw [if_neg fun both => here both.2,
        Vector.getElem?_setIfInBounds_ne fun same => here same.symm]
  · rw [if_neg same, if_neg fun both => same both.1]

private theorem nodeOf_withLink (inside : slot < pool.size) (other : Nat) :
    (pool.withLink slot level link).nodeOf other =
      if other = slot then (pool.nodeOf slot).setLink level link else pool.nodeOf other :=
  nodeOf_modify pool inside _ other

theorem bodyOf_withLink (inside : slot < pool.size) (other : Nat) :
    (pool.withLink slot level link).bodyOf other = pool.bodyOf other := by
  unfold bodyOf
  rw [nodeOf_withLink inside]
  split
  next same => rw [same]; rfl
  next => rfl

theorem backOf_withLink (inside : slot < pool.size) (other : Nat) :
    (pool.withLink slot level link).backOf other = pool.backOf other := by
  unfold backOf
  rw [nodeOf_withLink inside]
  split
  next same => rw [same]; rfl
  next => rfl

theorem counterOf_withLink (inside : slot < pool.size) (other : Nat) :
    (pool.withLink slot level link).counterOf other = pool.counterOf other := by
  unfold counterOf
  rw [nodeOf_withLink inside]
  split
  next same => rw [same]; rfl
  next => rfl

end WithLink

section WithBody

variable {slot : Nat} {body : Body}

omit [Inhabited Body] in
@[simp] theorem size_withBody (slot : Nat) (body : Body) :
    (pool.withBody slot body).size = pool.size := size_modify pool slot _

private theorem nodeOf_withBody (inside : slot < pool.size) (other : Nat) :
    (pool.withBody slot body).nodeOf other =
      if other = slot then { pool.nodeOf slot with body } else pool.nodeOf other :=
  nodeOf_modify pool inside _ other

theorem bodyOf_withBody (inside : slot < pool.size) (other : Nat) :
    (pool.withBody slot body).bodyOf other = if other = slot then body else pool.bodyOf other := by
  unfold bodyOf
  rw [nodeOf_withBody inside]
  split <;> rfl

theorem linkOf_withBody (inside : slot < pool.size) (other level : Nat) :
    (pool.withBody slot body).linkOf other level = pool.linkOf other level := by
  unfold linkOf
  rw [nodeOf_withBody inside]
  split
  next same => rw [same]
  next => rfl

theorem backOf_withBody (inside : slot < pool.size) (other : Nat) :
    (pool.withBody slot body).backOf other = pool.backOf other := by
  unfold backOf
  rw [nodeOf_withBody inside]
  split
  next same => rw [same]
  next => rfl

theorem counterOf_withBody (inside : slot < pool.size) (other : Nat) :
    (pool.withBody slot body).counterOf other = pool.counterOf other := by
  unfold counterOf
  rw [nodeOf_withBody inside]
  split
  next same => rw [same]
  next => rfl

end WithBody

section WithBack

variable {slot : Nat} {link : Link}

omit [Inhabited Body] in
@[simp] theorem size_withBack (slot : Nat) (link : Link) :
    (pool.withBack slot link).size = pool.size := size_modify pool slot _

private theorem nodeOf_withBack (inside : slot < pool.size) (other : Nat) :
    (pool.withBack slot link).nodeOf other =
      if other = slot then (pool.nodeOf slot).setBack link else pool.nodeOf other :=
  nodeOf_modify pool inside _ other

theorem backOf_withBack (inside : slot < pool.size) (other : Nat) :
    (pool.withBack slot link).backOf other =
      if other = slot then (pool.backOf slot).map fun _ => link else pool.backOf other := by
  unfold backOf
  rw [nodeOf_withBack inside]
  split <;> rfl

theorem back?_withBack {target : Nat} (inside : slot < pool.size)
    (targetInside : target < pool.size)
    (there : (pool.backOf slot).isSome = true) (other : Nat) :
    (pool.withBack slot (Link.ofSlot target)).back? other =
      if other = slot then some target else pool.back? other := by
  unfold back?
  rw [backOf_withBack inside]
  split
  next =>
    obtain ⟨link, found⟩ := Option.isSome_iff_exists.mp there
    rw [found, Option.map_some, Option.bind_some,
      Link.slot?_ofSlot (size_lt_slotLimit targetInside)]
  next => rfl

theorem bodyOf_withBack (inside : slot < pool.size) (other : Nat) :
    (pool.withBack slot link).bodyOf other = pool.bodyOf other := by
  unfold bodyOf
  rw [nodeOf_withBack inside]
  split
  next same => rw [same]; rfl
  next => rfl

theorem linkOf_withBack (inside : slot < pool.size) (other level : Nat) :
    (pool.withBack slot link).linkOf other level = pool.linkOf other level := by
  unfold linkOf
  rw [nodeOf_withBack inside]
  split
  next same => rw [same]; rfl
  next => rfl

theorem counterOf_withBack (inside : slot < pool.size) (other : Nat) :
    (pool.withBack slot link).counterOf other = pool.counterOf other := by
  unfold counterOf
  rw [nodeOf_withBack inside]
  split
  next same => rw [same]; rfl
  next => rfl

end WithBack

/-! ### Swinging a link past a node -/

/-- The pool with the link of a slot at a level swung past a node, and the node's link cleared. -/
def bypassed (pool : Pool levels Body) (prev node next level : Nat) : Pool levels Body :=
  (pool.withLink prev level (Link.ofSlot next)).withLink node level Link.cleared

section Bypassed

variable {prev node next level : Nat}

omit [Inhabited Body] in
theorem size_bypassed (prev node next level : Nat) :
    (pool.bypassed prev node next level).size = pool.size := by
  unfold bypassed
  rw [size_withLink, size_withLink]

theorem linkOf_bypassed (reached : level < levels) (prevInside : prev < pool.size)
    (nodeInside : node < pool.size) (next other height : Nat) :
    (pool.bypassed prev node next level).linkOf other height =
      if other = node ∧ height = level then Link.cleared
      else if other = prev ∧ height = level then Link.ofSlot next
      else pool.linkOf other height := by
  unfold bypassed
  rw [linkOf_withLink (by rwa [size_withLink]) reached, linkOf_withLink prevInside reached]

/-- Only the links of the two slots at the level change. -/
theorem linkOf_bypassed_of_ne (reached : level < levels) (prevInside : prev < pool.size)
    (nodeInside : node < pool.size) {other height : Nat}
    (notPrev : ¬ (other = prev ∧ height = level))
    (notNode : ¬ (other = node ∧ height = level)) :
    (pool.bypassed prev node next level).linkOf other height = pool.linkOf other height := by
  rw [linkOf_bypassed reached prevInside nodeInside, if_neg notNode, if_neg notPrev]

theorem linkOf_bypassed_prev (reached : level < levels) (prevInside : prev < pool.size)
    (nodeInside : node < pool.size) (apart : prev ≠ node) :
    (pool.bypassed prev node next level).linkOf prev level = Link.ofSlot next := by
  rw [linkOf_bypassed reached prevInside nodeInside, if_neg fun same => apart same.1,
    if_pos ⟨rfl, rfl⟩]

theorem linkOf_bypassed_node (reached : level < levels) (prevInside : prev < pool.size)
    (nodeInside : node < pool.size) :
    (pool.bypassed prev node next level).linkOf node level = Link.cleared := by
  rw [linkOf_bypassed reached prevInside nodeInside, if_pos ⟨rfl, rfl⟩]

theorem bodyOf_bypassed (prevInside : prev < pool.size) (nodeInside : node < pool.size)
    (other : Nat) : (pool.bypassed prev node next level).bodyOf other = pool.bodyOf other := by
  unfold bypassed
  rw [bodyOf_withLink (by rwa [size_withLink]), bodyOf_withLink prevInside]

theorem backOf_bypassed (prevInside : prev < pool.size) (nodeInside : node < pool.size)
    (other : Nat) : (pool.bypassed prev node next level).backOf other = pool.backOf other := by
  unfold bypassed
  rw [backOf_withLink (by rwa [size_withLink]), backOf_withLink prevInside]

theorem counterOf_bypassed (prevInside : prev < pool.size) (nodeInside : node < pool.size)
    (other : Nat) :
    (pool.bypassed prev node next level).counterOf other = pool.counterOf other := by
  unfold bypassed
  rw [counterOf_withLink (by rwa [size_withLink]), counterOf_withLink prevInside]

end Bypassed

/-! ### Linking a node between two others -/

/-- The pool with a node linked at a level between a slot and the one behind it. -/
def interposed (pool : Pool levels Body) (prev node next level : Nat) : Pool levels Body :=
  (pool.withLink node level (Link.ofSlot next)).withLink prev level (Link.ofSlot node)

section Interposed

variable {prev node next level : Nat}

omit [Inhabited Body] in
theorem size_interposed (prev node next level : Nat) :
    (pool.interposed prev node next level).size = pool.size := by
  unfold interposed
  rw [size_withLink, size_withLink]

theorem linkOf_interposed (reached : level < levels) (prevInside : prev < pool.size)
    (nodeInside : node < pool.size) (next other height : Nat) :
    (pool.interposed prev node next level).linkOf other height =
      if other = prev ∧ height = level then Link.ofSlot node
      else if other = node ∧ height = level then Link.ofSlot next
      else pool.linkOf other height := by
  unfold interposed
  rw [linkOf_withLink (by rwa [size_withLink]) reached, linkOf_withLink nodeInside reached]

/-- Only the links of the two slots at the level change. -/
theorem linkOf_interposed_of_ne (reached : level < levels) (prevInside : prev < pool.size)
    (nodeInside : node < pool.size) {other height : Nat}
    (notPrev : ¬ (other = prev ∧ height = level))
    (notNode : ¬ (other = node ∧ height = level)) :
    (pool.interposed prev node next level).linkOf other height = pool.linkOf other height := by
  rw [linkOf_interposed reached prevInside nodeInside, if_neg notPrev, if_neg notNode]

theorem linkOf_interposed_prev (reached : level < levels) (prevInside : prev < pool.size)
    (nodeInside : node < pool.size) :
    (pool.interposed prev node next level).linkOf prev level = Link.ofSlot node := by
  rw [linkOf_interposed reached prevInside nodeInside, if_pos ⟨rfl, rfl⟩]

theorem linkOf_interposed_node (reached : level < levels) (prevInside : prev < pool.size)
    (nodeInside : node < pool.size) (apart : node ≠ prev) :
    (pool.interposed prev node next level).linkOf node level = Link.ofSlot next := by
  rw [linkOf_interposed reached prevInside nodeInside, if_neg fun same => apart same.1,
    if_pos ⟨rfl, rfl⟩]

/-- The links that are put in are not marked. -/
theorem isMarked_of_interposed (reached : level < levels) (prevInside : prev < pool.size)
    (nodeInside : node < pool.size) (nextInside : next < pool.size) {other height : Nat}
    (marked : ((pool.interposed prev node next level).linkOf other height).isMarked = true) :
    (pool.linkOf other height).isMarked = true := by
  rw [linkOf_interposed reached prevInside nodeInside] at marked
  split at marked
  next =>
    rw [Link.isMarked_ofSlot (size_lt_slotLimit nodeInside)] at marked
    exact absurd marked Bool.false_ne_true
  next =>
    split at marked
    next =>
      rw [Link.isMarked_ofSlot (size_lt_slotLimit nextInside)] at marked
      exact absurd marked Bool.false_ne_true
    next => exact marked

/-- No link is taken away. -/
theorem linkOf_interposed_ne_nil (reached : level < levels) (prevInside : prev < pool.size)
    (nodeInside : node < pool.size) (nextInside : next < pool.size) {other height : Nat}
    (there : pool.linkOf other height ≠ Link.nil) :
    (pool.interposed prev node next level).linkOf other height ≠ Link.nil := by
  rw [linkOf_interposed reached prevInside nodeInside]
  split
  next => exact Link.ofSlot_ne_nil (size_lt_slotLimit nodeInside)
  next =>
    split
    next => exact Link.ofSlot_ne_nil (size_lt_slotLimit nextInside)
    next => exact there

/-- Where a link comes about, there was none only at the node that is linked. -/
theorem linkOf_ne_nil_of_interposed (reached : level < levels) (prevInside : prev < pool.size)
    (nodeInside : node < pool.size) (nextInside : next < pool.size)
    (prevTo : pool.linkOf prev level = Link.ofSlot next) {other height : Nat}
    (notNode : ¬ (other = node ∧ height = level))
    (there : (pool.interposed prev node next level).linkOf other height ≠ Link.nil) :
    pool.linkOf other height ≠ Link.nil := by
  by_cases isPrev : other = prev ∧ height = level
  · rw [isPrev.1, isPrev.2, prevTo]
    exact Link.ofSlot_ne_nil (size_lt_slotLimit nextInside)
  · rwa [linkOf_interposed_of_ne reached prevInside nodeInside isPrev notNode] at there

theorem bodyOf_interposed (prevInside : prev < pool.size) (nodeInside : node < pool.size)
    (other : Nat) : (pool.interposed prev node next level).bodyOf other = pool.bodyOf other := by
  unfold interposed
  rw [bodyOf_withLink (by rwa [size_withLink]), bodyOf_withLink nodeInside]

theorem backOf_interposed (prevInside : prev < pool.size) (nodeInside : node < pool.size)
    (other : Nat) : (pool.interposed prev node next level).backOf other = pool.backOf other := by
  unfold interposed
  rw [backOf_withLink (by rwa [size_withLink]), backOf_withLink nodeInside]

theorem counterOf_interposed (prevInside : prev < pool.size) (nodeInside : node < pool.size)
    (other : Nat) :
    (pool.interposed prev node next level).counterOf other = pool.counterOf other := by
  unfold interposed
  rw [counterOf_withLink (by rwa [size_withLink]), counterOf_withLink nodeInside]

end Interposed

/-! ### Actions that read or change a single node -/

open Operation

section Actions

variable {slot level : Nat}

theorem nodeAt_ends {condition : Node levels Body → Pool levels Body → Prop}
    (inside : slot < pool.size) (holds : condition (pool.nodeOf slot) pool) :
    Ends (nodeAt slot) pool condition := by
  refine Ends.of_eq ?_ holds
  unfold nodeAt
  rw [node?_eq_some inside]

theorem bodyAt_eq (inside : slot < pool.size) :
    bodyAt slot pool = .ok (pool.bodyOf slot, pool) := by
  unfold bodyAt
  rw [node?_eq_some inside]
  rfl

theorem bodyAt_ends {condition : Body → Pool levels Body → Prop} (inside : slot < pool.size)
    (holds : condition (pool.bodyOf slot) pool) : Ends (bodyAt slot) pool condition :=
  Ends.of_eq (bodyAt_eq inside) holds

theorem backAt_ends {link : Link} {condition : Link → Pool levels Body → Prop}
    (found : pool.backOf slot = some link) (inside : slot < pool.size)
    (holds : condition link pool) : Ends (backAt slot) pool condition := by
  refine Ends.of_eq ?_ holds
  unfold backAt
  rw [node?_eq_some inside, Option.bind_some]
  unfold backOf at found
  rw [found]

omit [Inhabited Body] in
theorem change_ends {update : Node levels Body → Node levels Body}
    {condition : Unit → Pool levels Body → Prop} (inside : slot < pool.size)
    (holds : condition () (pool.modify slot update)) :
    Ends (change slot update) pool condition := by
  refine Ends.of_eq ?_ holds
  unfold change
  rw [if_pos inside]

theorem changeBody_ends {update : Body → Body} {condition : Unit → Pool levels Body → Prop}
    (inside : slot < pool.size)
    (holds : condition () (pool.withBody slot (update (pool.bodyOf slot)))) :
    Ends (changeBody slot update) pool condition := by
  have same : pool.modify slot (fun node => { node with body := update node.body }) =
      pool.withBody slot (update (pool.bodyOf slot)) := modify_congr inside rfl
  unfold changeBody
  exact change_ends inside (same ▸ holds)

omit [Inhabited Body] in
theorem setBack_ends {link : Link} {condition : Unit → Pool levels Body → Prop}
    (inside : slot < pool.size) (holds : condition () (pool.withBack slot link)) :
    Ends (setBack slot link) pool condition :=
  change_ends inside holds

theorem linkAt_ends {condition : Link → Pool levels Body → Prop} (inside : slot < pool.size)
    (reached : level < levels) (holds : condition (pool.linkOf slot level) pool) :
    Ends (linkAt slot level) pool condition := by
  refine Ends.of_eq ?_ holds
  unfold linkAt
  rw [link?_eq_some inside reached]

theorem setLink_ends {link : Link} {condition : Unit → Pool levels Body → Prop}
    (inside : slot < pool.size) (reached : level < levels)
    (holds : condition () (pool.withLink slot level link)) :
    Ends (setLink slot level link) pool condition := by
  refine Ends.of_eq ?_ holds
  unfold setLink
  rw [link?_eq_some inside reached]
  rfl

omit [Inhabited Body] in
/-- Every slot of a pool can be named by a link. -/
theorem linkTo_ends {condition : Link → Pool levels Body → Prop} (inside : slot < pool.size)
    (holds : condition (Link.ofSlot slot) pool) : Ends (linkTo slot) pool condition := by
  unfold linkTo
  rw [if_pos (size_lt_slotLimit inside)]
  exact Ends.pure holds

theorem pointsTo_ends {target : Nat} {condition : Bool → Pool levels Body → Prop}
    (inside : slot < pool.size) (reached : level < levels) (targetInside : target < pool.size)
    (holds : condition ((pool.linkOf slot level).pointsTo target) pool) :
    Ends (pointsTo slot level target) pool condition := by
  unfold pointsTo
  refine Ends.bind (linkAt_ends inside reached ?_)
  exact Ends.bind (linkTo_ends targetInside (Ends.pure holds))

/-- A swap that finds what it expects replaces the link. -/
theorem swapLink_ends {expected replacement : Link} {condition : Bool → Pool levels Body → Prop}
    (inside : slot < pool.size) (reached : level < levels)
    (found : pool.linkOf slot level = expected)
    (holds : condition true (pool.withLink slot level replacement)) :
    Ends (swapLink slot level expected replacement) pool condition := by
  unfold swapLink
  refine Ends.bind (linkAt_ends inside reached ?_)
  rw [if_pos found]
  exact Ends.bind (setLink_ends inside reached (Ends.pure holds))

/-- A swap that finds another link changes nothing. -/
theorem swapLink_ends_of_ne {expected replacement : Link}
    {condition : Bool → Pool levels Body → Prop} (inside : slot < pool.size)
    (reached : level < levels) (other : pool.linkOf slot level ≠ expected)
    (holds : condition false pool) :
    Ends (swapLink slot level expected replacement) pool condition := by
  unfold swapLink
  refine Ends.bind (linkAt_ends inside reached ?_)
  rw [if_neg other]
  exact Ends.pure holds

theorem markLink_ends {condition : Bool → Pool levels Body → Prop} (inside : slot < pool.size)
    (reached : level < levels) (unmarked : (pool.linkOf slot level).isMarked = false)
    (holds : condition true
      (pool.withLink slot level ((pool.linkOf slot level).setMark true))) :
    Ends (markLink slot level) pool condition := by
  unfold markLink
  refine Ends.bind (linkAt_ends inside reached ?_)
  rw [if_neg (by simp [unmarked])]
  exact Ends.bind (swapLink_ends inside reached rfl (Ends.pure holds))

theorem markLink_ends_of_isMarked {condition : Bool → Pool levels Body → Prop}
    (inside : slot < pool.size) (reached : level < levels)
    (marked : (pool.linkOf slot level).isMarked = true) (holds : condition false pool) :
    Ends (markLink slot level) pool condition := by
  unfold markLink
  refine Ends.bind (linkAt_ends inside reached ?_)
  rw [if_pos marked]
  exact Ends.pure holds

/-- The pool with one more count on a slot. -/
abbrev retained (pool : Pool levels Body) (slot : Nat) : Pool levels Body :=
  pool.recount slot (pool.counterOf slot + 2)

theorem retain_ends {condition : Unit → Pool levels Body → Prop} (inside : slot < pool.size)
    (holds : condition () (pool.retained slot)) : Ends (retain slot) pool condition := by
  have same : pool.modify slot (fun node => node.setCounter (node.counter + 2)) =
      pool.retained slot := modify_congr inside rfl
  exact change_ends inside (same ▸ holds)

/-- An unmarked link to a slot is followed, which takes a count. -/
theorem follow_ends {link : Link} {next : Nat}
    {condition : Option Nat → Pool levels Body → Prop} (unmarked : link.isMarked = false)
    (named : link.slot? = some next) (inside : next < pool.size)
    (holds : condition (some next) (pool.retained next)) :
    Ends (follow link) pool condition := by
  unfold follow
  rw [if_neg (by simp [unmarked]), named]
  exact Ends.bind (retain_ends inside (Ends.pure holds))

omit [Inhabited Body] in
theorem follow_ends_of_isMarked {link : Link}
    {condition : Option Nat → Pool levels Body → Prop} (marked : link.isMarked = true)
    (holds : condition none pool) : Ends (follow link) pool condition := by
  unfold follow
  rw [if_pos marked]
  exact Ends.pure holds

/-- The pool with one count less on a slot. -/
abbrev surrendered (pool : Pool levels Body) (slot : Nat) : Pool levels Body :=
  pool.recount slot (pool.counterOf slot - 2)

/-- A count that is not the last is taken off the counter. -/
theorem surrender_ends_of_lt {condition : Bool → Pool levels Body → Prop}
    (inside : slot < pool.size) (more : 2 < pool.counterOf slot)
    (holds : condition false (pool.surrendered slot)) : Ends (surrender slot) pool condition := by
  unfold surrender
  refine Ends.bind (nodeAt_ends inside ?_)
  unfold counterOf at more
  rw [if_neg (by omega), if_neg (by omega)]
  exact Ends.bind (change_ends inside (Ends.pure holds))

/-- The last count on a node claims the node. -/
theorem surrender_ends_of_last {condition : Bool → Pool levels Body → Prop}
    (inside : slot < pool.size) (last : pool.counterOf slot = 2)
    (holds : condition true (pool.recount slot 1)) : Ends (surrender slot) pool condition := by
  unfold surrender
  refine Ends.bind (nodeAt_ends inside ?_)
  unfold counterOf at last
  rw [if_neg (by omega), if_pos last]
  exact Ends.bind (change_ends inside (Ends.pure holds))

/-- A count that is not the last is given up without further ado. -/
theorem releaseChain_ends_of_lt {condition : Unit → Pool levels Body → Prop} (bound : Nat)
    (inside : slot < pool.size) (more : 2 < pool.counterOf slot)
    (holds : condition () (pool.surrendered slot)) :
    Ends (releaseChain (bound + 1) slot) pool condition := by
  unfold releaseChain
  refine Ends.bind (surrender_ends_of_lt inside more ?_)
  rw [if_neg Bool.false_ne_true]
  exact Ends.pure holds

theorem release_ends_of_lt {condition : Unit → Pool levels Body → Prop}
    (inside : slot < pool.size) (more : 2 < pool.counterOf slot)
    (holds : condition () (pool.surrendered slot)) : Ends (release slot) pool condition :=
  Ends.onStart (releaseChain_ends_of_lt pool.size inside more holds)

end Actions

end Pool

end PooledContainers
