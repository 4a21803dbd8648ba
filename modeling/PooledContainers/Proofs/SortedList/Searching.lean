/-
The walks that search. A search goes along the live nodes and takes off every dead one that it
meets, so that behind the predecessor that it answers stands the node that it answers and nothing
dead is left in front of it. Each step goes on to a node of higher rank, which bounds the steps.
-/

import PooledContainers.Proofs.SortedList.Ground

namespace PooledContainers

namespace SortedList

open Line Operation Pool

variable {ground : Ground} {temporary : List Nat} {pool : Pool 1 Entry} {prev node : Nat}

/-! ### Taking nodes off the list -/

/-- A dead node was taken off the list behind its predecessor. -/
structure Ground.Unlinked (ground : Ground) (temporary : List Nat) (prev node : Nat)
    (pool after : Pool 1 Entry) : Prop where
  holds : ground.Holds temporary after
  tidied : Tidied ground.line ground.Dead 0 (ground.rank node) pool after
  off : ¬ after.Linked 0 node

/-- A dead node to which its predecessor points is taken off the list. -/
theorem unlink_ends (holds : ground.Holds temporary pool)
    (prevMember : prev ∈ headSlot :: ground.line) (nodeMember : node ∈ ground.line)
    (dead : ground.Dead node) (leads : pool.linkOf prev 0 = Link.ofSlot node) :
    Ends (unlink prev node) pool fun unlinked after =>
      unlinked = true ∧ ground.Unlinked temporary prev node pool after := by
  have prevInside := holds.inside (mem_spine_of_mem_cons prevMember)
  have nodeInside := holds.inside (mem_spine_of_mem nodeMember)
  have marked : (pool.linkOf node 0).isMarked = true := by
    rw [holds.isMarked_eq, decide_eq_true dead]
  have prevTo : pool.next? 0 prev = some node :=
    next?_of_linkOf leads (size_lt_slotLimit nodeInside)
  have adjacent := holds.threaded.adjacent prev prevMember node prevTo
  have notTail : node ≠ tailSlot := fun same =>
    tail_not_mem ground.strung.distinct (same ▸ nodeMember)
  obtain ⟨next, further⟩ := (adjacent.ends.resolve_left notTail).2.exists_next?
  have bypassed := holds.bypassed prevMember nodeMember dead leads further
  unfold unlink
  refine Ends.bind (holds.linkAt_ends (mem_spine_of_mem nodeMember) ?_)
  rw [if_pos marked, Link.setMark_false_of_slot? further]
  refine Ends.bind (linkTo_ends nodeInside ?_)
  refine Ends.bind (swapLink_ends prevInside Nat.zero_lt_one leads ?_)
  rw [if_pos rfl]
  refine Ends.bind (setLink_ends (by rwa [size_withLink]) Nat.zero_lt_one (Ends.pure ⟨rfl, ?_⟩))
  refine ⟨bypassed, ?_, ?_⟩
  · exact Tidied.bypass Nat.zero_lt_one prevInside nodeInside prevMember nodeMember dead
      (Nat.le_refl 0) adjacent.before (Nat.le_refl _) leads further
  · exact not_linked_of_cleared (linkOf_bypassed_node Nat.zero_lt_one prevInside nodeInside)

/-- What stands behind the predecessor of a node that was taken off stood behind that node. -/
theorem Ground.Unlinked.rank_lt {after : Pool 1 Entry} {next : Nat}
    (off : ground.Unlinked temporary prev node pool after) (nodeMember : node ∈ ground.line)
    (before : Adjacent ground.line pool 0 prev node)
    (later : Adjacent ground.line after 0 prev next) : ground.rank node < ground.rank next := by
  rcases later.ends with rfl | ⟨nextMember, nextLinked⟩
  · exact rank_lt_rank_tail ground.strung.distinct (List.mem_cons_of_mem _ nodeMember)
  · have past := before.between next nextMember (off.tidied.linked next 0 nextLinked) later.before
    refine Nat.lt_of_le_of_ne past fun same => off.off ?_
    rw [rank_injective (mem_spine_of_mem nodeMember) same]
    exact nextLinked

/-- A marked node to which a slot does not point stays where it is. -/
theorem unlink_ends_of_ne (prevInside : prev < pool.size) (nodeInside : node < pool.size)
    (marked : Marked pool node) (elsewhere : pool.linkOf prev 0 ≠ Link.ofSlot node)
    {condition : Bool → Pool 1 Entry → Prop} (goal : condition false pool) :
    Ends (unlink prev node) pool condition := by
  unfold unlink
  refine Ends.bind (linkAt_ends nodeInside Nat.zero_lt_one ?_)
  rw [if_pos (show (pool.linkOf node 0).isMarked = true from marked)]
  refine Ends.bind (linkTo_ends nodeInside ?_)
  refine Ends.bind (swapLink_ends_of_ne prevInside Nat.zero_lt_one elsewhere ?_)
  rw [if_neg Bool.false_ne_true]
  exact Ends.pure goal

/-! ### Following links -/

/-- The link of the head or of a live node is followed to its neighbour. -/
theorem follow_ends_of_alive (holds : ground.Holds temporary pool)
    (member : node ∈ headSlot :: ground.line) (alive : ¬ ground.Dead node)
    {condition : Option Nat → Pool 1 Entry → Prop}
    (goal : ∀ next, pool.linkOf node 0 = Link.ofSlot next → Adjacent ground.line pool 0 node next →
      ground.Holds (next :: temporary) (pool.retained next) →
        condition (some next) (pool.retained next)) :
    Ends (follow (pool.linkOf node 0)) pool condition := by
  obtain ⟨next, link, leads, adjacent⟩ := holds.exists_next member alive
  have inside := holds.inside adjacent.mem_spine
  have unmarked : (pool.linkOf node 0).isMarked = false := by
    rw [holds.isMarked_eq, decide_eq_false alive]
  exact follow_ends unmarked leads inside
    (goal next link adjacent (holds.recount (holds.held.retained inside)))

/-- From the head or a live node the walk comes to its neighbour. -/
theorem followFrom_ends (holds : ground.Holds temporary pool)
    (member : node ∈ headSlot :: ground.line) (alive : ¬ ground.Dead node)
    {condition : Option Nat → Pool 1 Entry → Prop}
    (goal : ∀ next, pool.linkOf node 0 = Link.ofSlot next → Adjacent ground.line pool 0 node next →
      ground.Holds (next :: temporary) (pool.retained next) →
        condition (some next) (pool.retained next)) :
    Ends (followFrom node) pool condition := by
  unfold followFrom
  exact Ends.bind (holds.linkAt_ends (mem_spine_of_mem_cons member)
    (follow_ends_of_alive holds member alive goal))

/-- From a dead node the walk comes nowhere. -/
theorem followFrom_ends_of_dead (holds : ground.Holds temporary pool)
    (member : node ∈ headSlot :: ground.line) (dead : ground.Dead node)
    {condition : Option Nat → Pool 1 Entry → Prop} (goal : condition none pool) :
    Ends (followFrom node) pool condition := by
  have marked : (pool.linkOf node 0).isMarked = true := by
    rw [holds.isMarked_eq, decide_eq_true dead]
  unfold followFrom
  refine Ends.bind (holds.linkAt_ends (mem_spine_of_mem_cons member) ?_)
  exact follow_ends_of_isMarked marked goal

/-! ### Searching -/

/-- A walk has come from one node to another one, and what stands there or behind is linked as it
was. -/
structure Ground.Swept (ground : Ground) (node stop : Nat) (pool after : Pool 1 Entry) : Prop where
  further : ground.rank node ≤ ground.rank stop
  links : ∀ slot, ground.rank stop ≤ ground.rank slot → ∀ level,
    after.linkOf slot level = pool.linkOf slot level

namespace Ground.Swept

variable {middle after : Pool 1 Entry} {stop last : Nat}

theorem refl (ground : Ground) (node : Nat) (pool : Pool 1 Entry) :
    ground.Swept node node pool pool :=
  ⟨Nat.le_refl _, fun _ _ _ => rfl⟩

theorem trans (first : ground.Swept node stop pool middle)
    (second : ground.Swept stop last middle after) : ground.Swept node last pool after where
  further := Nat.le_trans first.further second.further
  links slot far level := by
    rw [second.links slot far, first.links slot (Nat.le_trans second.further far)]

/-- Counters do not matter. -/
theorem recount (swept : ground.Swept node stop pool after) (slot counter : Nat) :
    ground.Swept node stop pool (after.recount slot counter) where
  further := swept.further
  links other far level := by rw [linkOf_recount, swept.links other far]

/-- A walk may go on with nothing changed. -/
theorem onward (swept : ground.Swept node stop pool after)
    (further : ground.rank stop ≤ ground.rank last) : ground.Swept node last pool after where
  further := Nat.le_trans swept.further further
  links slot far := swept.links slot (Nat.le_trans further far)

end Ground.Swept

/-- A walk for a key holds a live node in front of the key and the node to which that one points,
and has left no dead node on the list in front of it. -/
structure Ground.At (ground : Ground) (temporary : List Nat) (wanted : Int64) (prev node : Nat)
    (pool : Pool 1 Entry) : Prop where
  holds : ground.Holds (prev :: node :: temporary) pool
  member : prev ∈ headSlot :: ground.line
  alive : ¬ ground.Dead prev
  before : prev = headSlot ∨ ground.key prev < wanted
  leads : pool.linkOf prev 0 = Link.ofSlot node
  adjacent : Adjacent ground.line pool 0 prev node
  swept : ∀ slot ∈ ground.line, ground.rank slot < ground.rank prev → ground.Dead slot →
    ¬ pool.Linked 0 slot

/-- A search has found the first live node whose key is not below the one wanted, or the tail. -/
structure Ground.Found (ground : Ground) (temporary : List Nat) (wanted : Int64)
    (position : Nat × Nat) (pool : Pool 1 Entry) : Prop
    extends ground.At temporary wanted position.1 position.2 pool where
  reached : position.2 = tailSlot ∨
    position.2 ∈ ground.line ∧ ¬ ground.Dead position.2 ∧ wanted ≤ ground.key position.2

namespace Ground.At

variable {wanted : Int64}

/-- Nothing dead is left on the list in front of the node at which a walk stands. -/
theorem not_linked (here : ground.At temporary wanted prev node pool) {slot : Nat}
    (member : slot ∈ ground.line) (front : ground.rank slot < ground.rank node)
    (dead : ground.Dead slot) : ¬ pool.Linked 0 slot := by
  intro linked
  rcases Nat.lt_trichotomy (ground.rank slot) (ground.rank prev) with before | same | behind
  · exact here.swept slot member before dead linked
  · rw [rank_injective (mem_spine_of_mem member) same] at dead
    exact here.alive dead
  · exact Nat.not_lt_of_le (here.adjacent.between slot member linked behind) front

/-- A dead node at which a walk stands is taken off the list, and the walk stands at the next. -/
theorem replaceMarked_ends (here : ground.At temporary wanted prev node pool)
    (nodeMember : node ∈ ground.line) (dead : ground.Dead node) :
    Ends (replaceMarked prev node) pool fun next after =>
      ground.At temporary wanted prev next after ∧ ground.rank node < ground.rank next ∧
        ground.Swept node next pool after := by
  unfold replaceMarked
  refine Ends.andThen (unlink_ends here.holds here.member nodeMember dead here.leads)
    fun unlinked middle off => ?_
  obtain ⟨rfl, off⟩ := off
  rw [if_pos rfl]
  refine Ends.bind (followFrom_ends off.holds here.member here.alive
    fun next link adjacent holds => ?_)
  have order : [next, prev, node].Perm [node, prev, next] := List.reverse_perm [node, prev, next]
  have further := off.rank_lt nodeMember here.adjacent adjacent
  have passed : ground.Swept node next pool middle :=
    ⟨Nat.le_of_lt further, fun slot far => off.tidied.behind slot (Nat.lt_of_lt_of_le further far)⟩
  refine Ends.bind ((holds.perm (order.append_right temporary)).release_ends
    (mem_spine_of_mem nodeMember) fun released => Ends.pure ⟨⟨released, here.member, here.alive,
      here.before, ?_, (adjacent.recount _ _).recount _ _, fun slot member front isDead => ?_⟩,
        further, (passed.recount _ _).recount _ _⟩)
  · rw [linkOf_recount, linkOf_recount]
    exact link
  · rw [linked_recount, linked_recount]
    exact fun linked => here.swept slot member front isDead (off.tidied.linked slot 0 linked)

/-- A search goes on until it has found its place. -/
theorem searchFrom_ends (steps : Nat) {prev node : Nat} {pool : Pool 1 Entry}
    (here : ground.At temporary wanted prev node pool)
    (enough : ground.line.length + 2 ≤ steps + ground.rank node) :
    Ends (searchFrom wanted steps prev node) pool fun position after =>
      ground.Found temporary wanted position after ∧
        ground.Swept node position.2 pool after := by
  induction steps generalizing prev node pool with
  | zero =>
    have near : ground.rank node ≤ ground.line.length + 1 :=
      here.adjacent.rank_le_tail ground.strung.distinct
    omega
  | succ steps inductionHypothesis =>
    unfold searchFrom
    by_cases isTail : node = tailSlot
    · rw [if_pos isTail]
      exact Ends.pure ⟨⟨here, Or.inl isTail⟩, Ground.Swept.refl ground node pool⟩
    · rw [if_neg isTail]
      have nodeMember := here.adjacent.mem_of_ne_tail isTail
      have nodeInner : node ∈ headSlot :: ground.line := List.mem_cons_of_mem _ nodeMember
      have nodeSpine := mem_spine_of_mem nodeMember
      refine Ends.bind (here.holds.linkAt_ends nodeSpine ?_)
      rw [here.holds.isMarked_eq]
      by_cases dead : ground.Dead node
      · rw [if_pos (decide_eq_true dead)]
        refine Ends.andThen (here.replaceMarked_ends nodeMember dead) fun next middle moved => ?_
        obtain ⟨there, further, passed⟩ := moved
        exact (inductionHypothesis there (by omega)).imp fun position after found =>
          ⟨found.1, passed.trans found.2⟩
      · rw [if_neg (by rw [decide_eq_true_eq]; exact dead)]
        refine Ends.bind (follow_ends_of_alive here.holds nodeInner dead
          fun next link adjacent holds => ?_)
        refine Ends.bind (holds.bodyAt_ends nodeSpine ?_)
        by_cases reached : wanted ≤ (ground.start.bodyOf node).key
        · rw [if_pos reached]
          refine Ends.bind (holds.release_ends adjacent.mem_spine fun released => Ends.pure ?_)
          refine ⟨⟨⟨released, here.member, here.alive, here.before, ?_,
            (here.adjacent.recount _ _).recount _ _, fun slot member front isDead => ?_⟩,
            Or.inr ⟨nodeMember, dead, reached⟩⟩,
            ((Ground.Swept.refl ground node pool).recount _ _).recount _ _⟩
          · rw [linkOf_recount, linkOf_recount]
            exact here.leads
          · rw [linked_recount, linked_recount]
            exact here.swept slot member front isDead
        · rw [if_neg reached]
          have order : [next, prev, node].Perm [prev, node, next] :=
            @List.perm_append_comm Nat [next] [prev, node]
          refine Ends.bind ((holds.perm (order.append_right temporary)).release_ends
            (mem_spine_of_mem_cons here.member) fun released => ?_)
          have passed : ground.Swept node next pool ((pool.retained next).surrendered prev) :=
            (((Ground.Swept.refl ground node pool).recount _ _).recount _ _).onward
              (Nat.le_of_lt adjacent.before)
          refine (inductionHypothesis ⟨released, nodeInner, dead,
            Or.inr (Int64.not_le.mp reached), ?_, (adjacent.recount _ _).recount _ _,
            fun slot member front isDead => ?_⟩ ?_).imp fun position after found =>
              ⟨found.1, passed.trans found.2⟩
          · rw [linkOf_recount, linkOf_recount]
            exact link
          · rw [linked_recount, linked_recount]
            exact here.not_linked member front isDead
          · have further : ground.rank node < ground.rank next := adjacent.before
            omega

end Ground.At

/-- Every search finds its place, and leaves what stands there or behind linked as it was. -/
theorem search_ends_sparing (holds : ground.Holds temporary pool) (wanted : Int64) :
    Ends (search wanted) pool fun position after =>
      ground.Found temporary wanted position after ∧
        ground.Swept headSlot position.2 pool after := by
  unfold search
  refine Ends.bind (holds.retain_ends (head_mem_spine _) fun held => ?_)
  refine Ends.bind (followFrom_ends held List.mem_cons_self ground.strung.headUnmarked
    fun first link adjacent holds => ?_)
  have passed : ground.Swept headSlot first pool
      ((pool.retained headSlot).retained first) :=
    (((Ground.Swept.refl ground headSlot pool).recount _ _).recount _ _).onward
      (Nat.le_of_lt adjacent.before)
  refine Ends.onStart ((Ground.At.searchFrom_ends _ ⟨holds.swap, List.mem_cons_self,
    ground.strung.headUnmarked, Or.inl rfl, ?_, adjacent.recount _ _, fun slot _ front => ?_⟩
      ?_).imp fun position after found => ⟨found.1, passed.trans found.2⟩)
  · rw [linkOf_recount]
    exact link
  · rw [ground.rank_head] at front
    exact absurd front (Nat.not_lt_zero _)
  · have bound := length_lt_of_forall_lt ground.strung.distinct ground.strung.inside
    rw [holds.size]
    omega

theorem search_ends (holds : ground.Holds temporary pool) (wanted : Int64) :
    Ends (search wanted) pool (ground.Found temporary wanted) :=
  (search_ends_sparing holds wanted).imp fun _ _ found => found.1

/-! ### What was found -/

namespace Ground.Found

variable {wanted : Int64} {position : Nat × Nat}

/-- The node found is the first live one whose key is not below the one wanted. -/
theorem rank_le (found : ground.Found temporary wanted position pool) {slot : Nat}
    (member : slot ∈ ground.line) (alive : ¬ ground.Dead slot) (le : wanted ≤ ground.key slot) :
    ground.rank position.2 ≤ ground.rank slot := by
  refine found.adjacent.between slot member
    (found.holds.linked_of_alive (List.mem_cons_of_mem _ member) alive) ?_
  rcases List.mem_cons.mp found.member with isHead | inLine
  · rw [isHead, Line.rank_head]
    exact rank_pos ground.strung.distinct member
  · rcases found.before with isHead | below
    · exact absurd (isHead ▸ inLine) (head_not_mem ground.strung.distinct)
    · exact ground.rank_lt_of_key_lt inLine member (Int64.lt_of_lt_of_le below le)

/-- A live node with the key wanted is the node found. -/
theorem eq_of_key_eq (found : ground.Found temporary wanted position pool) {slot : Nat}
    (member : slot ∈ ground.line) (alive : ¬ ground.Dead slot) (same : ground.key slot = wanted) :
    position.2 = slot := by
  have past := found.rank_le member alive (same ▸ Int64.le_refl _)
  rcases found.reached with isTail | ⟨inLine, -, le⟩
  · rw [isTail] at past
    exact absurd (rank_lt_rank_tail ground.strung.distinct (List.mem_cons_of_mem _ member))
      (Nat.not_lt_of_le past)
  · refine rank_injective (mem_spine_of_mem inLine) (Nat.le_antisymm past ?_)
    exact ground.rank_le_of_key_le member inLine (same ▸ le)

/-- Dead nodes up to the key wanted are off the list. -/
theorem off (found : ground.Found temporary wanted position pool) {slot : Nat}
    (member : slot ∈ ground.line) (dead : ground.Dead slot) (le : ground.key slot ≤ wanted) :
    ¬ pool.Linked 0 slot := by
  refine found.not_linked member ?_ dead
  rcases found.reached with isTail | ⟨inLine, alive, further⟩
  · rw [isTail]
    exact rank_lt_rank_tail ground.strung.distinct (List.mem_cons_of_mem _ member)
  · refine Nat.lt_of_le_of_ne
      (ground.rank_le_of_key_le member inLine (Int64.le_trans le further)) fun same => alive ?_
    rwa [← rank_injective (mem_spine_of_mem member) same]

end Ground.Found

/-- Whether a node is an entry with a key. -/
theorem hasKey_ends (holds : ground.Holds temporary pool) {wanted : Int64}
    {condition : Bool → Pool 1 Entry → Prop} (member : node ∈ spine ground.line)
    (goal : condition (decide (node ≠ tailSlot ∧ ground.key node = wanted)) pool) :
    Ends (hasKey node wanted) pool condition := by
  unfold hasKey
  by_cases isTail : node = tailSlot
  · rw [if_pos isTail]
    rw [decide_eq_false fun both => both.1 isTail] at goal
    exact Ends.pure goal
  · rw [if_neg isTail]
    refine Ends.bind (holds.bodyAt_ends member (Ends.pure ?_))
    have same : decide (node ≠ tailSlot ∧ ground.key node = wanted) =
        ((ground.start.bodyOf node).key == wanted) := by
      rw [Bool.eq_iff_iff]
      simp [isTail, keyOf]
    exact same ▸ goal

end SortedList

end PooledContainers
