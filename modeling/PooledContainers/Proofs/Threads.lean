/-
What is linked at a level. A link names the node behind it, so a level is threaded if every link
there leads to the next node of the line that is linked at the level, or to the tail. Marks do not
matter here. Three changes keep a level threaded: swinging a link past a node, linking a node
between two neighbours, and letting nodes that are not linked come into the line or leave it.
-/

import PooledContainers.Proofs.Line
import PooledContainers.Proofs.Pool.View

namespace PooledContainers

open Line

variable {levels : Nat} {Body : Type} [Inhabited Body]

/-- The slot that the link of a slot at a level names. -/
def Pool.next? (pool : Pool levels Body) (level slot : Nat) : Option Nat :=
  (pool.linkOf slot level).slot?

/-- Whether the link of a slot at a level names a slot. -/
def Pool.Linked (pool : Pool levels Body) (level slot : Nat) : Prop :=
  (pool.next? level slot).isSome = true

instance (pool : Pool levels Body) (level slot : Nat) : Decidable (pool.Linked level slot) :=
  inferInstanceAs (Decidable (_ = true))

namespace Pool

variable {pool after : Pool levels Body} {level slot : Nat}

/-- A link to a slot names it. -/
theorem next?_of_linkOf {next : Nat} (leads : pool.linkOf slot level = Link.ofSlot next)
    (limit : next < Link.slotLimit) : pool.next? level slot = some next := by
  unfold next?
  rw [leads, Link.slot?_ofSlot limit]

theorem next?_of_nil (nil : pool.linkOf slot level = Link.nil) :
    pool.next? level slot = none := by
  unfold next?
  rw [nil, Link.slot?_nil]

theorem next?_of_cleared (cleared : pool.linkOf slot level = Link.cleared) :
    pool.next? level slot = none := by
  unfold next?
  rw [cleared, Link.slot?_cleared]

/-- Nothing but the link itself matters to what it names. -/
theorem next?_congr (same : after.linkOf slot level = pool.linkOf slot level) :
    after.next? level slot = pool.next? level slot := congrArg Link.slot? same

/-- A mark on a link leaves what it names. -/
theorem next?_marked {node height : Nat} (inside : node < pool.size) (reached : height < levels)
    (level slot : Nat) :
    (pool.withLink node height ((pool.linkOf node height).setMark true)).next? level slot =
      pool.next? level slot := by
  unfold next?
  rw [linkOf_withLink inside reached]
  split
  next same => rw [Link.slot?_setMark, same.1, same.2]
  next => rfl

theorem Linked.of_next? {next : Nat} (leads : pool.next? level slot = some next) :
    pool.Linked level slot := by
  unfold Linked
  rw [leads]
  rfl

theorem Linked.exists_next? (linked : pool.Linked level slot) :
    ∃ next, pool.next? level slot = some next := Option.isSome_iff_exists.mp linked

theorem Linked.congr (same : after.next? level slot = pool.next? level slot)
    (linked : pool.Linked level slot) : after.Linked level slot := by
  unfold Linked
  rw [same]
  exact linked

theorem not_linked_of_next? (nowhere : pool.next? level slot = none) :
    ¬ pool.Linked level slot := by
  unfold Linked
  rw [nowhere]
  exact Bool.false_ne_true

theorem not_linked_of_cleared (cleared : pool.linkOf slot level = Link.cleared) :
    ¬ pool.Linked level slot := not_linked_of_next? (next?_of_cleared cleared)

theorem Linked.ne_nil (linked : pool.Linked level slot) : pool.linkOf slot level ≠ Link.nil :=
  fun nil => not_linked_of_next? (next?_of_nil nil) linked

end Pool

@[simp] theorem Pool.next?_recount (pool : Pool levels Body) (slot counter level other : Nat) :
    (pool.recount slot counter).next? level other = pool.next? level other :=
  Pool.next?_congr (Pool.linkOf_recount slot counter other level)

@[simp] theorem Pool.linked_recount (pool : Pool levels Body) (slot counter level other : Nat) :
    (pool.recount slot counter).Linked level other ↔ pool.Linked level other := by
  unfold Pool.Linked
  rw [Pool.next?_recount]

/-! ### Swinging a link past a node -/

namespace Pool

variable {pool : Pool levels Body} {prev node next level : Nat} (reached : level < levels)
  (prevInside : prev < pool.size) (nodeInside : node < pool.size)

include reached prevInside nodeInside

/-- What was linked is, except for the node. -/
theorem linked_bypassed_iff (prevTo : pool.linkOf prev level = Link.ofSlot node)
    (nodeTo : pool.next? level node = some next) {slot height : Nat} :
    (pool.bypassed prev node next level).Linked height slot ↔
      ¬ (slot = node ∧ height = level) ∧ pool.Linked height slot := by
  unfold Linked next?
  rw [linkOf_bypassed reached prevInside nodeInside]
  split
  next isNode =>
    rw [Link.slot?_cleared]
    exact iff_of_false Bool.false_ne_true fun both => both.1 isNode
  next notNode =>
    split
    next isPrev =>
      rw [isPrev.1, isPrev.2, prevTo, Link.slot?_ofSlot (size_lt_slotLimit nodeInside),
        Link.slot?_ofSlot (Link.slot_lt_of_slot? nodeTo)]
      exact iff_of_true rfl ⟨isPrev.1 ▸ isPrev.2 ▸ notNode, rfl⟩
    next => exact (and_iff_right notNode).symm

end Pool

/-! ### Linking a node between two others -/

namespace Pool

variable {pool : Pool levels Body} {prev node next level : Nat} (reached : level < levels)
  (prevInside : prev < pool.size) (nodeInside : node < pool.size) (nextInside : next < pool.size)

include reached prevInside nodeInside nextInside

/-- Besides what was linked, just the node is. -/
theorem linked_interposed_iff (prevTo : pool.linkOf prev level = Link.ofSlot next)
    {slot height : Nat} : (pool.interposed prev node next level).Linked height slot ↔
      slot = node ∧ height = level ∨ pool.Linked height slot := by
  have nodeLimit := size_lt_slotLimit nodeInside
  have nextLimit := size_lt_slotLimit nextInside
  unfold Linked next?
  rw [linkOf_interposed reached prevInside nodeInside]
  split
  next isPrev =>
    rw [isPrev.1, isPrev.2, prevTo, Link.slot?_ofSlot nodeLimit, Link.slot?_ofSlot nextLimit]
    exact iff_of_true rfl (Or.inr rfl)
  next =>
    split
    next isNode =>
      rw [Link.slot?_ofSlot nextLimit]
      exact iff_of_true rfl (Or.inl isNode)
    next notNode => exact (or_iff_right notNode).symm

end Pool

/-- The slots that can be reached from the head along a level, marks ignored. -/
inductive Pool.Met {levels : Nat} {Body : Type} [Inhabited Body] (pool : Pool levels Body)
    (level : Nat) : Nat → Prop
  | head : Met pool level headSlot
  | behind {slot next : Nat} (met : Met pool level slot)
      (names : pool.next? level slot = some next) : Met pool level next

/-- What hangs together behind a slot that can be reached can be reached. -/
theorem Pool.Met.of_isChain {pool : Pool levels Body} {level slot : Nat} {rest : List Nat}
    (met : pool.Met level slot)
    (chain : (slot :: rest).IsChain fun front behind => pool.next? level front = some behind) :
    ∀ other ∈ slot :: rest, pool.Met level other := by
  induction rest generalizing slot with
  | nil =>
    intro other member
    rw [List.mem_singleton.mp member]
    exact met
  | cons next rest inductionHypothesis =>
    intro other member
    obtain ⟨names, further⟩ := List.isChain_cons_cons.mp chain
    rcases List.mem_cons.mp member with rfl | inRest
    · exact met
    · exact inductionHypothesis (Pool.Met.behind met names) further other inRest

/-! ### Neighbours at a level -/

/-- One slot stands in front of another, and nothing that is linked at a level stands between. -/
structure Adjacent (line : List Nat) (pool : Pool levels Body) (level front behind : Nat) :
    Prop where
  /-- They stand in this order. -/
  before : rank line front < rank line behind
  /-- The one behind is the tail or linked itself. -/
  ends : behind = tailSlot ∨ behind ∈ line ∧ pool.Linked level behind
  /-- What is linked behind the first is not in front of the second. -/
  between : ∀ other ∈ line, pool.Linked level other → rank line front < rank line other →
    rank line behind ≤ rank line other

/-- Every link at a level leads to the next slot that is linked there. -/
structure Threaded (line : List Nat) (pool : Pool levels Body) (level : Nat) : Prop where
  /-- The head is linked. -/
  head : pool.Linked level headSlot
  /-- Links lead to neighbours. -/
  adjacent : ∀ slot ∈ headSlot :: line, ∀ next, pool.next? level slot = some next →
    Adjacent line pool level slot next

variable {line : List Nat} {pool after : Pool levels Body} {level : Nat}

theorem Adjacent.mem_spine {front behind : Nat} (adjacent : Adjacent line pool level front behind) :
    behind ∈ spine line := by
  rcases adjacent.ends with rfl | ⟨member, -⟩
  · exact tail_mem_spine line
  · exact mem_spine_of_mem member

theorem Adjacent.recount {front behind : Nat} (adjacent : Adjacent line pool level front behind)
    (slot counter : Nat) : Adjacent line (pool.recount slot counter) level front behind :=
  ⟨adjacent.before, adjacent.ends.imp_right fun ⟨member, linked⟩ =>
    ⟨member, (Pool.linked_recount _ _ _ _ _).mpr linked⟩, fun other member linked =>
      adjacent.between other member ((Pool.linked_recount _ _ _ _ _).mp linked)⟩

theorem Adjacent.of_recount {slot counter front behind : Nat}
    (adjacent : Adjacent line (pool.recount slot counter) level front behind) :
    Adjacent line pool level front behind :=
  ⟨adjacent.before, adjacent.ends.imp_right fun ⟨member, linked⟩ =>
    ⟨member, (Pool.linked_recount _ _ _ _ _).mp linked⟩, fun other member linked =>
      adjacent.between other member ((Pool.linked_recount _ _ _ _ _).mpr linked)⟩

theorem Adjacent.mem_of_ne_tail {front behind : Nat}
    (adjacent : Adjacent line pool level front behind) (inner : behind ≠ tailSlot) :
    behind ∈ line :=
  (adjacent.ends.resolve_left inner).1

/-- The next node in front of the tail stands no further than the tail. -/
theorem Adjacent.rank_le_tail {front behind : Nat} (distinct : (spine line).Nodup)
    (adjacent : Adjacent line pool level front behind) :
    rank line behind ≤ line.length + 1 := by
  rw [← rank_tail distinct]
  rcases adjacent.ends with rfl | ⟨member, -⟩
  · exact Nat.le_refl _
  · exact Nat.le_of_lt (rank_lt_rank_tail distinct (List.mem_cons_of_mem _ member))

namespace Threaded

/-- Of two slots that are linked, one stands behind the other and behind what the other names. -/
theorem apart (threaded : Threaded line pool level) {first second firstNext secondNext : Nat}
    (firstMember : first ∈ headSlot :: line) (secondMember : second ∈ headSlot :: line)
    (firstTo : pool.next? level first = some firstNext)
    (secondTo : pool.next? level second = some secondNext) (differ : first ≠ second) :
    rank line firstNext ≤ rank line second ∨ rank line secondNext ≤ rank line first := by
  have between : ∀ front ∈ headSlot :: line, ∀ behind ∈ headSlot :: line, ∀ next,
      pool.next? level front = some next → pool.Linked level behind →
      rank line front < rank line behind → rank line next ≤ rank line behind := by
    intro front frontMember behind behindMember next leads linked before
    rcases List.mem_cons.mp behindMember with rfl | inLine
    · rw [rank_head] at before
      exact absurd before (Nat.not_lt_zero _)
    · exact (threaded.adjacent front frontMember next leads).between behind inLine linked before
  have ranks : rank line first ≠ rank line second := fun same =>
    differ (rank_injective (mem_spine_of_mem_cons firstMember) same)
  rcases Nat.lt_or_gt_of_ne ranks with before | behind
  · exact Or.inl (between first firstMember second secondMember firstNext firstTo
      (Pool.Linked.of_next? secondTo) before)
  · exact Or.inr (between second secondMember first firstMember secondNext secondTo
      (Pool.Linked.of_next? firstTo) behind)

/-- Two slots whose links name the same slot are the same. -/
theorem front_unique (threaded : Threaded line pool level) {first second next : Nat}
    (firstMember : first ∈ headSlot :: line) (secondMember : second ∈ headSlot :: line)
    (firstTo : pool.next? level first = some next)
    (secondTo : pool.next? level second = some next) : first = second := by
  by_contra differ
  rcases threaded.apart firstMember secondMember firstTo secondTo differ with late | late
  · have before := (threaded.adjacent second secondMember next secondTo).before
    exact absurd before (Nat.not_lt_of_le late)
  · have before := (threaded.adjacent first firstMember next firstTo).before
    exact absurd before (Nat.not_lt_of_le late)

/-- With nothing in the line the head leads to the tail. -/
theorem nil (leads : pool.next? level headSlot = some tailSlot) : Threaded [] pool level := by
  refine ⟨Pool.Linked.of_next? leads, fun slot member next names => ?_⟩
  rw [List.mem_singleton.mp member] at names ⊢
  rw [← Option.some.inj (leads.symm.trans names)]
  exact ⟨by decide, Or.inl rfl, by simp⟩

/-- Only what links name matters. -/
theorem congr (threaded : Threaded line pool level)
    (same : ∀ slot ∈ headSlot :: line, after.next? level slot = pool.next? level slot) :
    Threaded line after level where
  head := threaded.head.congr (same headSlot List.mem_cons_self)
  adjacent slot member next leads := by
    rw [same slot member] at leads
    have adjacent := threaded.adjacent slot member next leads
    refine ⟨adjacent.before, ?_, fun other otherMember linked behind => ?_⟩
    · exact adjacent.ends.imp_right fun ⟨inLine, linked⟩ =>
        ⟨inLine, linked.congr (same next (List.mem_cons_of_mem _ inLine))⟩
    · exact adjacent.between other otherMember
        (linked.congr (same other (List.mem_cons_of_mem _ otherMember)).symm) behind

/-- Swinging the link of a slot past its neighbour, which is linked no longer. -/
theorem bypass (threaded : Threaded line pool level) (distinct : (spine line).Nodup)
    {prev node next : Nat} (prevMember : prev ∈ headSlot :: line) (nodeMember : node ∈ line)
    (prevTo : pool.next? level prev = some node) (nodeTo : pool.next? level node = some next)
    (prevAfter : after.next? level prev = some next) (nodeAfter : after.next? level node = none)
    (others : ∀ slot ∈ headSlot :: line, slot ≠ prev → slot ≠ node →
      after.next? level slot = pool.next? level slot) :
    Threaded line after level := by
  have nodeMember' : node ∈ headSlot :: line := List.mem_cons_of_mem _ nodeMember
  have prevAdjacent := threaded.adjacent prev prevMember node prevTo
  have nodeAdjacent := threaded.adjacent node nodeMember' next nodeTo
  have headApart : headSlot ≠ node := fun same => head_not_mem distinct (same ▸ nodeMember)
  have linkedBefore : ∀ slot ∈ headSlot :: line, after.Linked level slot →
      pool.Linked level slot := by
    intro slot member linked
    by_cases isPrev : slot = prev
    · exact isPrev ▸ Pool.Linked.of_next? prevTo
    · by_cases isNode : slot = node
      · exact isNode ▸ Pool.Linked.of_next? nodeTo
      · exact linked.congr (others slot member isPrev isNode).symm
  have linkedAfter : ∀ slot ∈ headSlot :: line, slot ≠ node → pool.Linked level slot →
      after.Linked level slot := by
    intro slot member apart linked
    by_cases isPrev : slot = prev
    · exact isPrev ▸ Pool.Linked.of_next? prevAfter
    · exact linked.congr (others slot member isPrev apart)
  have notNode : ∀ slot, after.Linked level slot → slot ≠ node := by
    rintro slot linked rfl
    exact Pool.not_linked_of_next? nodeAfter linked
  refine ⟨linkedAfter headSlot List.mem_cons_self headApart threaded.head, ?_⟩
  intro slot member found leads
  have slotApart : slot ≠ node := notNode slot (Pool.Linked.of_next? leads)
  by_cases isPrev : slot = prev
  · subst isPrev
    obtain rfl : next = found := Option.some.inj (prevAfter.symm.trans leads)
    refine ⟨Nat.lt_trans prevAdjacent.before nodeAdjacent.before, ?_, ?_⟩
    · refine nodeAdjacent.ends.imp_right fun ⟨inLine, linked⟩ => ⟨inLine, ?_⟩
      refine linkedAfter next (List.mem_cons_of_mem _ inLine) ?_ linked
      rintro rfl
      exact Nat.lt_irrefl _ nodeAdjacent.before
    · intro other otherMember linked behind
      have otherMember' : other ∈ headSlot :: line := List.mem_cons_of_mem _ otherMember
      have pastNode :=
        prevAdjacent.between other otherMember (linkedBefore other otherMember' linked) behind
      have apart : rank line node ≠ rank line other := fun same =>
        notNode other linked (rank_injective (mem_spine_of_mem nodeMember) same).symm
      exact nodeAdjacent.between other otherMember (linkedBefore other otherMember' linked)
        (Nat.lt_of_le_of_ne pastNode apart)
  · have toBefore : pool.next? level slot = some found := by
      rw [← others slot member isPrev slotApart]
      exact leads
    have adjacent := threaded.adjacent slot member found toBefore
    refine ⟨adjacent.before, ?_, fun other otherMember linked behind => ?_⟩
    · refine adjacent.ends.imp_right fun ⟨inLine, linked⟩ => ⟨inLine, ?_⟩
      refine linkedAfter found (List.mem_cons_of_mem _ inLine) ?_ linked
      rintro rfl
      exact isPrev (threaded.front_unique member prevMember toBefore prevTo)
    · exact adjacent.between other otherMember
        (linkedBefore other (List.mem_cons_of_mem _ otherMember) linked) behind

/-- The pool with the link of a slot swung past its neighbour is threaded. -/
theorem bypassed (threaded : Threaded line pool level) (distinct : (spine line).Nodup)
    {prev node next : Nat} (reached : level < levels) (prevInside : prev < pool.size)
    (nodeInside : node < pool.size) (prevMember : prev ∈ headSlot :: line)
    (nodeMember : node ∈ line) (prevTo : pool.next? level prev = some node)
    (nodeTo : pool.next? level node = some next) :
    Threaded line (pool.bypassed prev node next level) level := by
  have before := (threaded.adjacent prev prevMember node prevTo).before
  have apart : prev ≠ node := fun same => absurd (same ▸ before) (Nat.lt_irrefl _)
  refine threaded.bypass distinct prevMember nodeMember prevTo nodeTo ?_ ?_
    fun slot _ notPrev notNode => ?_
  · exact Pool.next?_of_linkOf (Pool.linkOf_bypassed_prev reached prevInside nodeInside apart)
      (Link.slot_lt_of_slot? nodeTo)
  · exact Pool.next?_of_cleared (Pool.linkOf_bypassed_node reached prevInside nodeInside)
  · exact Pool.next?_congr (Pool.linkOf_bypassed_of_ne reached prevInside nodeInside
      (fun same => notPrev same.1) fun same => notNode same.1)

/-- Linking a node of the line between two neighbours. -/
theorem link (threaded : Threaded line pool level)
    {prev node next : Nat} (prevMember : prev ∈ headSlot :: line) (nodeMember : node ∈ line)
    (prevTo : pool.next? level prev = some next) (nodeTo : pool.next? level node = none)
    (prevBefore : rank line prev < rank line node) (nodeBefore : rank line node < rank line next)
    (prevAfter : after.next? level prev = some node)
    (nodeAfter : after.next? level node = some next)
    (others : ∀ slot ∈ headSlot :: line, slot ≠ prev → slot ≠ node →
      after.next? level slot = pool.next? level slot) :
    Threaded line after level := by
  have prevAdjacent := threaded.adjacent prev prevMember next prevTo
  have linkedAfter : ∀ slot ∈ headSlot :: line, pool.Linked level slot →
      after.Linked level slot := by
    intro slot member linked
    by_cases isPrev : slot = prev
    · exact isPrev ▸ Pool.Linked.of_next? prevAfter
    · by_cases isNode : slot = node
      · exact isNode ▸ Pool.Linked.of_next? nodeAfter
      · exact linked.congr (others slot member isPrev isNode)
  have linkedBefore : ∀ slot ∈ headSlot :: line, slot ≠ node → after.Linked level slot →
      pool.Linked level slot := by
    intro slot member apart linked
    by_cases isPrev : slot = prev
    · exact isPrev ▸ Pool.Linked.of_next? prevTo
    · exact linked.congr (others slot member isPrev apart).symm
  refine ⟨linkedAfter headSlot List.mem_cons_self threaded.head, ?_⟩
  intro slot member found leads
  by_cases isPrev : slot = prev
  · subst isPrev
    obtain rfl : node = found := Option.some.inj (prevAfter.symm.trans leads)
    refine ⟨prevBefore, Or.inr ⟨nodeMember, Pool.Linked.of_next? nodeAfter⟩, ?_⟩
    intro other otherMember linked behind
    by_cases isNode : other = node
    · exact Nat.le_of_eq (congrArg (rank line) isNode.symm)
    · have past := prevAdjacent.between other otherMember
        (linkedBefore other (List.mem_cons_of_mem _ otherMember) isNode linked) behind
      omega
  · by_cases isNode : slot = node
    · subst isNode
      obtain rfl : next = found := Option.some.inj (nodeAfter.symm.trans leads)
      refine ⟨nodeBefore, ?_, ?_⟩
      · exact prevAdjacent.ends.imp_right fun ⟨inLine, linked⟩ =>
          ⟨inLine, linkedAfter next (List.mem_cons_of_mem _ inLine) linked⟩
      · intro other otherMember linked behind
        by_cases same : other = slot
        · rw [same] at behind
          exact absurd behind (Nat.lt_irrefl _)
        · exact prevAdjacent.between other otherMember
            (linkedBefore other (List.mem_cons_of_mem _ otherMember) same linked) (by omega)
    · have toBefore : pool.next? level slot = some found := by
        rw [← others slot member isPrev isNode]
        exact leads
      have adjacent := threaded.adjacent slot member found toBefore
      refine ⟨adjacent.before, ?_, fun other otherMember linked behind => ?_⟩
      · exact adjacent.ends.imp_right fun ⟨inLine, linked⟩ =>
          ⟨inLine, linkedAfter found (List.mem_cons_of_mem _ inLine) linked⟩
      · by_cases same : other = node
        · -- The node stands behind a slot only if its front neighbour does, which is linked.
          subst same
          rcases threaded.apart member prevMember toBefore prevTo isPrev with inFront | past
          · exact Nat.le_trans inFront (Nat.le_of_lt prevBefore)
          · exact absurd behind (Nat.not_lt_of_le (Nat.le_of_lt
              (Nat.lt_of_lt_of_le nodeBefore past)))
        · exact adjacent.between other otherMember
            (linkedBefore other (List.mem_cons_of_mem _ otherMember) same linked) behind

/-- The pool with a node of the line linked between two neighbours is threaded. -/
theorem interposed (threaded : Threaded line pool level) {prev node next : Nat}
    (reached : level < levels) (prevInside : prev < pool.size) (nodeInside : node < pool.size)
    (nextInside : next < pool.size) (prevMember : prev ∈ headSlot :: line)
    (nodeMember : node ∈ line) (prevTo : pool.linkOf prev level = Link.ofSlot next)
    (nodeNil : pool.linkOf node level = Link.nil) (prevBefore : rank line prev < rank line node)
    (nodeBefore : rank line node < rank line next) :
    Threaded line (pool.interposed prev node next level) level := by
  have apart : node ≠ prev := fun same => absurd (same ▸ prevBefore) (Nat.lt_irrefl _)
  have nodeLimit := Pool.size_lt_slotLimit nodeInside
  have nextLimit := Pool.size_lt_slotLimit nextInside
  refine threaded.link prevMember nodeMember (Pool.next?_of_linkOf prevTo nextLimit)
    (Pool.next?_of_nil nodeNil) prevBefore nodeBefore ?_ ?_ fun slot _ notPrev notNode => ?_
  · exact Pool.next?_of_linkOf (Pool.linkOf_interposed_prev reached prevInside nodeInside) nodeLimit
  · exact Pool.next?_of_linkOf
      (Pool.linkOf_interposed_node reached prevInside nodeInside apart) nextLimit
  · exact Pool.next?_congr (Pool.linkOf_interposed_of_ne reached prevInside nodeInside
      (fun same => notPrev same.1) fun same => notNode same.1)

/-- Nodes that are not linked at a level may leave the line. -/
theorem of_sublist {rest : List Nat} (threaded : Threaded line pool level)
    (distinct : (spine line).Nodup) (part : rest.Sublist line)
    (gone : ∀ slot ∈ line, slot ∉ rest → ¬ pool.Linked level slot) :
    Threaded rest pool level where
  head := threaded.head
  adjacent slot member next leads := by
    have member' : slot ∈ headSlot :: line := (part.cons_cons headSlot).subset member
    have adjacent := threaded.adjacent slot member' next leads
    have slotSpine := mem_spine_of_mem_cons member
    have nextRest : next = tailSlot ∨ next ∈ rest ∧ pool.Linked level next := by
      refine adjacent.ends.imp_right fun ⟨inLine, linked⟩ => ⟨?_, linked⟩
      by_contra absent
      exact gone next inLine absent linked
    have nextSpine : next ∈ spine rest := by
      rcases nextRest with rfl | ⟨inRest, -⟩
      · exact tail_mem_spine rest
      · exact mem_spine_of_mem inRest
    refine ⟨(rank_lt_rank_iff part distinct slotSpine nextSpine).mpr adjacent.before, nextRest,
      fun other otherMember linked behind => ?_⟩
    have otherSpine := mem_spine_of_mem otherMember
    rw [rank_le_rank_iff part distinct nextSpine otherSpine]
    exact adjacent.between other (part.subset otherMember) linked
      ((rank_lt_rank_iff part distinct slotSpine otherSpine).mp behind)

/-- Nodes that are not linked at a level may come into the line. -/
theorem of_superlist {longer : List Nat} (threaded : Threaded line pool level)
    (distinct : (spine longer).Nodup) (part : line.Sublist longer)
    (fresh : ∀ slot ∈ longer, slot ∉ line → ¬ pool.Linked level slot) :
    Threaded longer pool level where
  head := threaded.head
  adjacent slot member next leads := by
    have inLine : ∀ other ∈ longer, pool.Linked level other → other ∈ line := by
      intro other otherMember linked
      by_contra absent
      exact fresh other otherMember absent linked
    have member' : slot ∈ headSlot :: line := by
      rcases List.mem_cons.mp member with rfl | inLonger
      · exact List.mem_cons_self
      · exact List.mem_cons_of_mem _ (inLine slot inLonger (Pool.Linked.of_next? leads))
    have adjacent := threaded.adjacent slot member' next leads
    have slotSpine := mem_spine_of_mem_cons member'
    have nextSpine := adjacent.mem_spine
    refine ⟨(rank_lt_rank_iff part distinct slotSpine nextSpine).mp adjacent.before, ?_,
      fun other otherMember linked behind => ?_⟩
    · exact adjacent.ends.imp_right fun ⟨there, linked⟩ => ⟨part.subset there, linked⟩
    · have there := inLine other otherMember linked
      have otherSpine := mem_spine_of_mem there
      rw [← rank_le_rank_iff part distinct nextSpine otherSpine]
      exact adjacent.between other there linked
        ((rank_lt_rank_iff part distinct slotSpine otherSpine).mpr behind)

/-! ### What can be reached -/

/-- What can be reached along a level are slots of the line and the sentinels. -/
theorem mem_spine_of_met (threaded : Threaded line pool level)
    (last : pool.next? level tailSlot = none) {slot : Nat} (met : pool.Met level slot) :
    slot ∈ spine line := by
  induction met with
  | head => exact head_mem_spine line
  | @behind slot next _ names inductionHypothesis =>
    rcases mem_spine.mp inductionHypothesis with rfl | inLine | rfl
    · exact (threaded.adjacent headSlot List.mem_cons_self next names).mem_spine
    · exact (threaded.adjacent slot (List.mem_cons_of_mem _ inLine) next names).mem_spine
    · exact absurd (last.symm.trans names) (by simp)

/-- If all of a line is linked at a level, each slot of its spine leads to the next one. -/
theorem isChain (threaded : Threaded line pool level) (distinct : (spine line).Nodup)
    (linked : ∀ slot ∈ line, pool.Linked level slot) :
    (spine line).IsChain fun front behind => pool.next? level front = some behind := by
  refine List.isChain_iff_getElem.mpr fun index inside => ?_
  have frontInside : index < (spine line).length := Nat.lt_of_succ_lt inside
  have frontRank := rank_getElem distinct frontInside
  have behindRank := rank_getElem distinct inside
  have tailRank := rank_tail distinct
  have length := length_spine line
  have frontMember : (spine line)[index] ∈ headSlot :: line := by
    refine mem_cons_of_mem_spine (List.getElem_mem frontInside) fun isTail => ?_
    rw [isTail] at frontRank
    omega
  have frontLinked : pool.Linked level (spine line)[index] := by
    rcases List.mem_cons.mp frontMember with isHead | inLine
    · exact isHead ▸ threaded.head
    · exact linked _ inLine
  obtain ⟨next, leads⟩ := frontLinked.exists_next?
  have adjacent := threaded.adjacent _ frontMember next leads
  have before := adjacent.before
  have near : rank line next ≤ rank line (spine line)[index + 1] := by
    rcases mem_spine.mp (List.getElem_mem inside) with isHead | inLine | isTail
    · rw [isHead, rank_head] at behindRank
      omega
    · exact adjacent.between _ inLine (linked _ inLine) (by omega)
    · rw [isTail]
      have low := adjacent.rank_le_tail distinct
      omega
  have same : rank line next = rank line (spine line)[index + 1] := by omega
  rw [leads, rank_injective adjacent.mem_spine same]

end Threaded

end PooledContainers
