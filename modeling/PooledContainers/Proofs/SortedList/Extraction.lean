/-
The removals of a sorted list, by key and of the smallest entry. Either finds its node by a walk
that tidies up, marks it and completes the removal at once. What it leaves is a list in order in
which all other pending nodes are as they were.
-/

import PooledContainers.Proofs.SortedList.Removal

namespace PooledContainers

namespace SortedList

open Line Operation Pool

/-! ### Acting on a list -/

section Acting

variable {list : SortedList} {Outcome : Type} {condition : Outcome → SortedList → Prop}

theorem onNodes_ends {walk : Walk Outcome}
    (ends : Ends walk list.pool fun outcome pool => condition outcome { list with pool }) :
    Ends (onNodes walk) list condition :=
  Ends.within ends

theorem adjustBalance_ends {change : Int} {condition : Unit → SortedList → Prop}
    (goal : condition () { list with balance := list.balance + change }) :
    Ends (adjustBalance change) list condition :=
  Ends.updating goal

end Acting

/-- What an operation leaves: a list in order, in which what matters of pending nodes is as it was,
and the balance changed. -/
structure Settled (pending : Nat → Bool) (held : Nat → Nat) (change : Int)
    (list after : SortedList) : Prop where
  capacity : after.capacity = list.capacity
  balance : after.balance = list.balance + change
  consistent : ∃ line free, Consistent line free [] pending held after.pool
  alike : Alike pending list.pool after.pool

theorem Settled.of_alike {pending : Nat → Bool} {held : Nat → Nat} {change : Int}
    {list after : SortedList} {pool : Pool 1 Entry} (alike : Alike pending list.pool pool)
    (settled : Settled pending held change { list with pool } after) :
    Settled pending held change list after :=
  ⟨settled.capacity, settled.balance, settled.consistent, alike.trans settled.alike⟩

/-! ### Removing a node that was found -/

section Removing

variable {line free : List Nat} {pending : Nat → Bool} {held : Nat → Nat} {list : SortedList}
  {prev node : Nat}

namespace Consistent

theorem completeRemoval_ends
    (consistent : Consistent line free [] pending (addCount (addCount held node) prev) list.pool)
    (isPending : pending node = true) (marked : Marked list.pool node)
    (prevInside : prev < list.pool.size) :
    Ends (completeRemoval prev node) list fun _ after =>
      Settled (finish pending node) held (-1) list after := by
  unfold completeRemoval
  refine Ends.bind (onNodes_ends ((consistent.complete_ends isPending marked prevInside).imp
    fun _ pool completed => adjustBalance_ends ?_))
  obtain ⟨laterLine, laterFree, settled, alike⟩ := completed
  exact ⟨rfl, rfl, ⟨laterLine, laterFree, settled⟩, alike⟩

/-- A held live node is removed, and answers its entry. -/
theorem remove_ends
    (consistent : Consistent line free [] pending (addCount (addCount held node) prev) list.pool)
    (member : node ∈ line) (alive : ¬ Marked list.pool node) (prevInside : prev < list.pool.size) :
    Ends (remove prev node) list fun entry after =>
      entry = (keyOf list.pool node, (list.pool.bodyOf node).payload) ∧
        Settled (finish pending node) held (-1) list after := by
  have inside : node < list.pool.size := consistent.inside (mem_spine_of_mem member)
  have alike : Alike (finish pending node) list.pool (SortedList.deleted list.pool node) :=
    alike_deleted inside
  have marked : Marked (SortedList.deleted list.pool node) node :=
    (marked_deleted_iff inside node).mpr (Or.inl rfl)
  have completes : Ends (completeRemoval prev node)
      { list with pool := SortedList.deleted list.pool node } fun _ after =>
        Settled (finish pending node) held (-1)
          { list with pool := SortedList.deleted list.pool node } after :=
    (consistent.deleted member).completeRemoval_ends (consistent.linkedPending node member) marked
      (alike.size.symm ▸ prevInside)
  have entry : (SortedList.deleted list.pool node).bodyOf node = list.pool.bodyOf node :=
    bodyOf_deleted inside node
  unfold remove
  refine Ends.bind (onNodes_ends (mark_ends inside alive ?_))
  rw [if_pos rfl]
  refine Ends.bind (onNodes_ends (bodyAt_ends (alike.size.symm ▸ inside) ?_))
  refine Ends.andThen completes fun _ after settled => Ends.pure ⟨?_, settled.of_alike alike⟩
  rw [entry]
  rfl

/-- What a search has found is in order, with the counts on the position besides. -/
theorem found_walked {pool : Pool 1 Entry}
    (consistent : Consistent line free [] pending held pool)
    {wanted : Int64} {position : Nat × Nat} {after : Pool 1 Entry}
    (found : consistent.ground.Found [] wanted position after) :
    Consistent (remaining line after) free [] pending
      (addCount (addCount held position.2) position.1) after := by
  refine (consistent.walked found.holds fun slot inTemporary => ?_).congr
    (addCount_pair held position.1 position.2)
  simp only [List.mem_cons, List.not_mem_nil, or_false] at inTemporary
  rcases inTemporary with rfl | rfl
  · exact mem_spine_of_mem_cons found.member
  · exact found.adjacent.mem_spine

/-- A walk holds a live node and its predecessor, and removes the node. -/
theorem remove_found_ends (consistent : Consistent line free [] pending held list.pool)
    {wanted : Int64} {pool : Pool 1 Entry}
    (found : consistent.ground.Found [] wanted (prev, node) pool) (inner : node ≠ tailSlot) :
    Ends (remove prev node) { list with pool } fun entry after =>
      entry = (keyOf list.pool node, (list.pool.bodyOf node).payload) ∧
        Settled (finish pending node) held (-1) list after := by
  obtain ⟨member, alive, -⟩ := found.reached.resolve_left inner
  have linked : pool.Linked 0 node :=
    found.holds.linked_of_alive (List.mem_cons_of_mem _ member) alive
  have alike : Alike pending list.pool pool := found.holds.alike pending
  have isPending : pending node = true := consistent.linkedPending node member
  have stillAlive : ¬ Marked pool node := (alike.marked node isPending).not.mpr alive
  have prevInside : prev < pool.size :=
    found.holds.inside (mem_spine_of_mem_cons found.member)
  have body : pool.bodyOf node = list.pool.bodyOf node :=
    alike.body node isPending
  have inRemaining : node ∈ remaining line pool := mem_remaining.mpr ⟨member, linked⟩
  have removes : Ends (remove prev node) { list with pool } fun entry after =>
      entry = (keyOf pool node, (pool.bodyOf node).payload) ∧
        Settled (finish pending node) held (-1) { list with pool } after :=
    remove_ends (consistent.found_walked found) inRemaining stillAlive prevInside
  refine removes.imp fun entry after removed => ⟨?_, removed.2.of_alike (alike.mono finish_le)⟩
  rw [removed.1, keyOf_congr body, body]

/-- A walk holds two nodes, removes none of them and gives them up. -/
theorem giveBack_ends (consistent : Consistent line free [] pending held list.pool)
    {wanted : Int64} {pool : Pool 1 Entry}
    (found : consistent.ground.Found [] wanted (prev, node) pool) :
    Ends (onNodes (releaseAll [node, prev])) { list with pool } fun _ after =>
      Settled pending held 0 list after := by
  have counted : ∀ slot, held slot + [node, prev].count slot =
      addCount (addCount held node) prev slot := by
    intro slot
    rw [addCount_pair, (List.Perm.swap prev node []).count_eq]
  have walked := (consistent.found_walked found).congr counted
  have gives : Ends (releaseAll [node, prev]) pool fun _ after => ∃ laterFree,
      Consistent (remaining line pool) laterFree [] pending held after ∧
        Alike pending pool after := by
    refine walked.releaseAll_ends _ fun slot member => ?_
    simp only [List.mem_cons, List.not_mem_nil, or_false] at member
    rcases member with rfl | rfl
    · exact found.holds.inside found.adjacent.mem_spine
    · exact found.holds.inside (mem_spine_of_mem_cons found.member)
  refine onNodes_ends (gives.imp fun _ after released => ?_)
  obtain ⟨laterFree, settled, alike⟩ := released
  exact ⟨rfl, (Int.add_zero _).symm, ⟨_, laterFree, settled⟩,
    (found.holds.alike pending).trans alike⟩

/-! ### Removal by key -/

/-- The live node with a key is removed, if there is one. -/
theorem extract_ends (consistent : Consistent line free [] pending held list.pool) (key : Int64) :
    Ends (extract key) list fun answer after =>
      (∃ node ∈ line, ¬ Marked list.pool node ∧ keyOf list.pool node = key ∧
        answer = some (list.pool.bodyOf node).payload ∧
        Settled (finish pending node) held (-1) list after) ∨
      (∀ slot ∈ line, ¬ Marked list.pool slot → keyOf list.pool slot ≠ key) ∧ answer = none ∧
        Settled pending held 0 list after := by
  unfold extract
  refine Ends.bind (onNodes_ends ((search_ends consistent.holds key).imp
    fun position pool found => ?_))
  obtain ⟨prev, node⟩ := position
  refine Ends.bind (onNodes_ends (hasKey_ends found.holds found.adjacent.mem_spine ?_))
  by_cases present : node ≠ tailSlot ∧ consistent.ground.key node = key
  · rw [if_pos (decide_eq_true present)]
    obtain ⟨member, alive, -⟩ := found.reached.resolve_left present.1
    refine Ends.bind ((consistent.remove_found_ends found present.1).imp
      fun entry after removed => Ends.pure (Or.inl ⟨node, member, alive, present.2, ?_, removed.2⟩))
    rw [removed.1]
  · rw [if_neg (by rw [decide_eq_true_eq]; exact present)]
    refine Ends.bind ((consistent.giveBack_ends found).imp fun _ after settled =>
      Ends.pure (Or.inr ⟨fun slot member alive same => present ?_, rfl, settled⟩))
    have isNode : node = slot := found.eq_of_key_eq member alive same
    refine ⟨fun isTail => ?_, isNode ▸ same⟩
    exact tail_not_mem consistent.strung.distinct (isTail ▸ isNode ▸ member)

end Consistent

end Removing

/-! ### Removal of the smallest entry -/

/-- The dead nodes in front are taken off the list until a live one comes first, or none. -/
theorem firstLive_ends (steps : Nat) {ground : Ground} {temporary : List Nat}
    {pool : Pool 1 Entry} (holds : ground.Holds temporary pool)
    (enough : ∀ next, Adjacent ground.line pool 0 headSlot next →
      ground.line.length + 2 ≤ steps + ground.rank next) :
    Ends (firstLive steps) pool fun first after =>
      ground.Found temporary Int64.minValue (headSlot, first) after := by
  have headAlive : ¬ ground.Dead headSlot := ground.strung.headUnmarked
  induction steps generalizing pool with
  | zero =>
    obtain ⟨next, -, -, adjacent⟩ := holds.exists_next List.mem_cons_self headAlive
    have near : ground.rank next ≤ ground.line.length + 1 :=
      adjacent.rank_le_tail ground.strung.distinct
    have far := enough next adjacent
    omega
  | succ steps inductionHypothesis =>
    unfold firstLive
    refine Ends.bind (holds.retain_ends (head_mem_spine _) fun held => ?_)
    refine Ends.bind (followFrom_ends held List.mem_cons_self headAlive
      fun first link adjacent both => ?_)
    show Ends (if first = tailSlot then _ else _) _ _
    have noneInFront : ∀ slot ∈ ground.line, ¬ ground.rank slot < ground.rank headSlot := by
      intro slot _ front
      rw [ground.rank_head] at front
      exact absurd front (Nat.not_lt_zero _)
    have firstLink : ((pool.retained headSlot).retained first).linkOf headSlot 0 =
        Link.ofSlot first := by
      rw [linkOf_recount]
      exact link
    have firstAdjacent := adjacent.recount first (counterOf (pool.retained headSlot) first + 2)
    have here : ground.At temporary Int64.minValue headSlot first
        ((pool.retained headSlot).retained first) :=
      ⟨both.swap, List.mem_cons_self, headAlive, Or.inl rfl, firstLink, firstAdjacent,
        fun slot member front => absurd front (noneInFront slot member)⟩
    by_cases isTail : first = tailSlot
    · rw [if_pos isTail]
      exact Ends.pure ⟨here, Or.inl isTail⟩
    · rw [if_neg isTail]
      have member := adjacent.mem_of_ne_tail isTail
      refine Ends.bind (both.linkAt_ends (mem_spine_of_mem member) ?_)
      rw [both.isMarked_eq]
      by_cases dead : ground.Dead first
      · rw [if_pos (decide_eq_true dead)]
        refine Ends.bind ((unlink_ends both List.mem_cons_self member dead firstLink).imp
          fun _ middle off => ?_)
        obtain ⟨-, off⟩ := off
        refine Ends.bind (off.holds.releaseBoth_ends (mem_spine_of_mem member) (head_mem_spine _)
          fun _ released => inductionHypothesis released fun next further => ?_)
        have beyond := off.rank_lt member firstAdjacent
          ((Adjacent.of_recount (Adjacent.of_recount further)))
        have before := enough first ((Adjacent.of_recount adjacent))
        omega
      · rw [if_neg (by rw [decide_eq_true_eq]; exact dead)]
        exact Ends.pure ⟨here, Or.inr ⟨member, dead, Int64.minValue_le _⟩⟩

/-- The live node with the smallest key is removed, if there is a live node. -/
theorem Consistent.extractMin_ends {line free : List Nat} {pending : Nat → Bool}
    {held : Nat → Nat} {list : SortedList}
    (consistent : Consistent line free [] pending held list.pool) :
    Ends extractMin list fun answer after =>
      (∃ node ∈ line, ¬ Marked list.pool node ∧
        (∀ slot ∈ line, ¬ Marked list.pool slot → keyOf list.pool node ≤ keyOf list.pool slot) ∧
        answer = some (keyOf list.pool node, (list.pool.bodyOf node).payload) ∧
        Settled (finish pending node) held (-1) list after) ∨
      (∀ slot ∈ line, Marked list.pool slot) ∧ answer = none ∧
        Settled pending held 0 list after := by
  have enough : line.length + 2 ≤ list.pool.size :=
    length_lt_of_forall_lt consistent.strung.distinct consistent.strung.inside
  have walk : Ends (Operation.onStart fun pool => firstLive pool.size) list.pool
      fun first pool => consistent.ground.Found [] Int64.minValue (headSlot, first) pool :=
    Ends.onStart (firstLive_ends list.pool.size consistent.holds fun _ _ =>
      Nat.le_add_right_of_le enough)
  unfold extractMin
  refine Ends.bind (onNodes_ends (walk.imp fun first pool found => ?_))
  have nothingBefore : ∀ slot ∈ line, ¬ Marked list.pool slot →
      rank line first ≤ rank line slot :=
    fun slot member alive => found.rank_le member alive (Int64.minValue_le _)
  by_cases isTail : first = tailSlot
  · rw [if_pos isTail]
    have gives : Ends (onNodes (releaseAll [first, headSlot])) { list with pool } fun _ after =>
        Settled pending held 0 list after := consistent.giveBack_ends found
    refine Ends.andThen gives fun _ after settled =>
      Ends.pure (Or.inr ⟨fun slot member => ?_, rfl, settled⟩)
    by_contra alive
    have past := nothingBefore slot member alive
    rw [isTail] at past
    exact absurd (rank_lt_rank_tail consistent.strung.distinct (List.mem_cons_of_mem _ member))
      (Nat.not_lt_of_le past)
  · rw [if_neg isTail]
    obtain ⟨member, alive, -⟩ := found.reached.resolve_left isTail
    have points : (pool.linkOf headSlot 0).pointsTo first = true := by
      rw [found.leads]
      exact beq_self_eq_true _
    have removes : Ends (remove headSlot first) { list with pool } fun entry after =>
        entry = (keyOf list.pool first, (list.pool.bodyOf first).payload) ∧
          Settled (finish pending first) held (-1) list after :=
      consistent.remove_found_ends found isTail
    refine Ends.bind (onNodes_ends (pointsTo_ends (found.holds.inside (head_mem_spine _))
      Nat.zero_lt_one (found.holds.inside found.adjacent.mem_spine) ?_))
    rw [if_pos points]
    refine Ends.andThen removes fun entry after removed =>
      Ends.pure (Or.inl ⟨first, member, alive, fun slot other otherAlive => ?_,
        congrArg some removed.1, removed.2⟩)
    refine Int64.not_lt.mp fun smaller => ?_
    exact Nat.not_lt_of_le (nothingBefore slot other otherAlive)
      (consistent.ground.rank_lt_of_key_lt other member smaller)

end SortedList

end PooledContainers
