/-
Looking for a node at a level. A search for its key may end at a newer node with the same key, and
then the node is looked for further on, behind that one. From in front of a node that is linked at
the level the walk stays in front of it and finds it. From elsewhere it may end anywhere, but it
does not report a predecessor that is none.
-/

import PooledContainers.Proofs.PriorityQueue.Walks

namespace PooledContainers

namespace PriorityQueue

open Line Operation

variable {ground : Ground} {helping : Helping} {temporary : List Nat}
  {pool : Pool maxLevels Entry}

/-! ### What stands in front of a node -/

/-- A key is covered by the nodes in front of a node that has it. -/
theorem Ground.covers_of_mem {node : Nat} (member : node ∈ ground.line) :
    ground.Covers (ground.rank node - 1) (ground.key node) := by
  intro slot slotMember smaller
  have before := ground.rank_lt_of_key_lt slotMember member smaller
  omega

/-- Tidying in front of a node leaves its links as they were. -/
theorem Ground.linkOf_of_tidies {after : Pool maxLevels Entry} {level node : Nat}
    (member : node ∈ ground.line)
    (tidied : ground.Tidies level (ground.rank node - 1) pool after) (height : Nat) :
    after.linkOf node height = pool.linkOf node height := by
  have positive : 0 < ground.rank node := rank_pos ground.roster.distinct member
  exact tidied.behind node (by unfold Ground.rank at positive ⊢; omega) height

theorem Ground.linked_of_tidies {after : Pool maxLevels Entry} {level node : Nat}
    (member : node ∈ ground.line)
    (tidied : ground.Tidies level (ground.rank node - 1) pool after) {height : Nat}
    (linked : pool.Linked height node) : after.Linked height node :=
  linked.congr (Pool.next?_congr (Ground.linkOf_of_tidies member tidied height))

/-- What stands in front of a linked node leads to it or to something in front of it. -/
theorem Ground.rank_le_of_adjacent {node level front behind : Nat} (member : node ∈ ground.line)
    (linked : pool.Linked level node) (before : ground.rank front < ground.rank node)
    (adjacent : Adjacent ground.line pool level front behind) :
    ground.rank behind ≤ ground.rank node ∧ behind ∈ ground.line := by
  have le := adjacent.between node member linked before
  refine ⟨le, adjacent.mem_of_ne_tail ?_⟩
  rintro rfl
  exact Nat.not_lt_of_le le
    (rank_lt_rank_tail ground.roster.distinct (List.mem_cons_of_mem _ member))

/-! ### Finding a node at a level -/

/-- How far a walk may have to go that looks for a node at a level: up to the node, if that is
linked there, and otherwise as far as the line goes. -/
inductive Ground.Reach (ground : Ground) (node level bound : Nat) (pool : Pool maxLevels Entry) :
    Prop
  | node (close : ground.rank node = bound + 1) (linked : pool.Linked level node)
  | line (whole : ground.line.length ≤ bound)

namespace Ground.Reach

variable {node level bound : Nat} (reach : ground.Reach node level bound pool)
  (member : node ∈ ground.line)

include reach member

theorem tidied {after : Pool maxLevels Entry} (tidied : ground.Tidies level bound pool after) :
    ground.Reach node level bound after := by
  cases reach with
  | node close linked =>
    have same : bound = ground.rank node - 1 := by omega
    exact Reach.node close (Ground.linked_of_tidies member (same ▸ tidied) linked)
  | line whole => exact Reach.line whole

theorem rank_le : ground.rank node ≤ bound + 1 := by
  cases reach with
  | node close _ => exact Nat.le_of_eq close
  | line whole =>
    exact Nat.le_succ_of_le (Nat.le_trans
      (rank_le_length ground.roster.distinct (List.mem_cons_of_mem _ member)) whole)

variable {front behind : Nat} (near : ground.rank front ≤ bound)
  (adjacent : Adjacent ground.line pool level front behind)

include near adjacent

/-- A walk up to a node does not pass it. -/
theorem ahead (short : bound < ground.rank node) :
    ground.rank behind ≤ ground.rank node ∧ behind ∈ ground.line := by
  cases reach with
  | node _ linked =>
    exact Ground.rank_le_of_adjacent member linked (Nat.lt_of_le_of_lt near short) adjacent
  | line whole =>
    have within := rank_le_length ground.roster.distinct (List.mem_cons_of_mem headSlot member)
    exact absurd (Nat.lt_of_le_of_lt whole short) (Nat.not_lt_of_le within)

/-- What a walk comes to is not behind the bound, as long as it is not the node itself. -/
theorem rank_next_le (inLine : behind ∈ ground.line) (apart : behind ≠ node) :
    ground.rank behind ≤ bound := by
  by_cases short : bound < ground.rank node
  · have le := (reach.ahead member near adjacent short).1
    have different : ground.rank behind ≠ ground.rank node := fun same =>
      apart (rank_injective (mem_spine_of_mem inLine) same)
    have close := reach.rank_le member
    omega
  · cases reach with
    | node close _ => exact absurd (Nat.lt_of_lt_of_eq (Nat.lt_succ_self bound) close.symm) short
    | line whole =>
      exact Nat.le_trans (rank_le_length ground.roster.distinct (List.mem_cons_of_mem _ inLine))
        whole

end Ground.Reach

/-- The nodes with the key of a node were passed, up to the node or as far as they go. -/
structure Ground.Passed (ground : Ground) (temporary : List Nat) (node level bound : Nat)
    (pool : Pool maxLevels Entry) (position : Nat × Nat) (after : Pool maxLevels Entry) : Prop
    extends ground.Arrived temporary level bound pool position after where
  found : bound < ground.rank node → position.2 = node

/-- A node was looked for at a level: the predecessor that is held now, and whether its link leads
to the node. -/
structure Ground.Looked (ground : Ground) (temporary : List Nat) (node level bound : Nat)
    (pool : Pool maxLevels Entry) (answer : Nat × Bool) (after : Pool maxLevels Entry) :
    Prop where
  holds : ground.Holds (answer.1 :: temporary) after
  tidied : ground.Tidies level bound pool after
  member : answer.1 ∈ headSlot :: ground.line
  there : after.linkOf answer.1 level ≠ Link.nil
  leads : answer.2 = true → after.linkOf answer.1 level = Link.ofSlot node
  found : bound < ground.rank node → answer.2 = true
  heeded : Heeded pool after
  vouched : ground.Vouched level answer.1 after

/-- What is reported of the position at which a walk arrived. -/
theorem Ground.Arrived.looked {node level bound : Nat} {position : Nat × Nat}
    {after : Pool maxLevels Entry}
    (arrived : ground.Arrived temporary level bound pool position after) {linked : Bool}
    (leads : linked = true → position.2 = node) (found : bound < ground.rank node → linked = true) :
    ground.Looked (position.2 :: temporary) node level bound pool (position.1, linked) after where
  holds := arrived.holds
  tidied := arrived.tidied
  member := arrived.member
  there := arrived.there
  leads isLinked := leads isLinked ▸ arrived.leads
  found := found
  heeded := arrived.heeded
  vouched := arrived.vouched

/-- A count may be given up after a node was looked for. -/
theorem Ground.Looked.released {node level bound slot : Nat} {held : List Nat}
    {answer : Nat × Bool} {after : Pool maxLevels Entry}
    (looked : ground.Looked held node level bound pool answer after)
    (released : ground.Holds (answer.1 :: temporary) (after.surrendered slot)) :
    ground.Looked temporary node level bound pool answer (after.surrendered slot) where
  holds := released
  tidied := looked.tidied.recount _ _
  member := looked.member
  there := by
    rw [Pool.linkOf_recount]
    exact looked.there
  leads linked := by
    rw [Pool.linkOf_recount]
    exact looked.leads linked
  found := looked.found
  heeded := looked.heeded.recount _ _
  vouched := looked.vouched.recount _ _

namespace Helping

variable {limit : Nat}

section Looking

variable {node level bound : Nat} (member : node ∈ ground.line)
  (sound : helping.SoundBefore ground limit) (boundLt : bound < limit)

include member sound boundLt

/-- Passing the nodes with a key that stand in front of a node with that key. -/
theorem passEqual_ends (low : level < ground.maxHeight) (steps : Nat) {position : Nat × Nat}
    {earlier pool : Pool maxLevels Entry}
    (arrived : ground.Arrived temporary level bound earlier position pool)
    (near : ground.rank position.1 ≤ bound) (reach : ground.Reach node level bound pool)
    (keyLe : position.2 = tailSlot ∨ ground.key node ≤ ground.key position.2)
    (enough : ground.line.length + 2 ≤ steps + ground.rank position.2) :
    Ends (helping.passEqual node level (ground.key node) steps position.1 position.2) pool
      (ground.Passed temporary node level bound earlier) := by
  have adjacent := arrived.adjacent
  induction steps generalizing position pool with
  | zero =>
    have short := adjacent.rank_le_tail ground.roster.distinct
    unfold Ground.rank at enough
    omega
  | succ steps inductionHypothesis =>
    unfold passEqual
    refine Ends.bind (arrived.holds.hasKey_ends adjacent.mem_spine ?_)
    by_cases passes : (position.2 ≠ tailSlot ∧ ground.key position.2 = ground.key node) ∧
        position.2 ≠ node
    · rw [if_pos (by simpa using passes)]
      obtain ⟨⟨notTail, sameKey⟩, apart⟩ := passes
      have nextMember := adjacent.mem_of_ne_tail notTail
      have nextNear := reach.rank_next_le member near adjacent nextMember apart
      have nextLinked := (adjacent.ends.resolve_left notTail).2
      obtain ⟨target, nextLeads⟩ := nextLinked.exists_next?
      refine Ends.bind (arrived.holds.release_ends (mem_spine_of_mem_cons arrived.member)
        fun released => ?_)
      refine Ends.andThen (successor_ends sound released (List.mem_cons_of_mem _ nextMember)
        (by omega) (by rw [Pool.linkOf_recount]; exact nextLinked.ne_nil))
        fun found after followed => ?_
      have tidied : ground.Tidies level bound pool after :=
        (Tidied.of_recount _ _ _ _ _ _ _).trans
          (followed.tidied.weaken (Nat.le_refl _) nextNear)
      have there : found.2 = target :=
        followed.arrives target (by rw [Pool.next?_recount]; exact nextLeads)
      have further : ground.rank position.2 < ground.rank found.2 := by
        rw [there]
        exact (arrived.holds.adjacent (List.mem_cons_of_mem _ nextMember) low nextLeads).before
      have goesOn : ground.Arrived temporary level bound earlier found after :=
        followed.toArrived.of_earlier (arrived.tidied.recount _ _) (arrived.heeded.recount _ _)
          nextNear
      refine inductionHypothesis goesOn (Nat.le_trans followed.within nextNear)
        (reach.tidied member tidied) ?_ (by omega) goesOn.adjacent
      by_cases isTail : found.2 = tailSlot
      · exact Or.inl isTail
      · right
        rw [← sameKey]
        exact ground.key_le_of_rank_le nextMember (goesOn.adjacent.mem_of_ne_tail isTail)
          (Nat.le_of_lt further)
    · rw [if_neg (by simpa using passes)]
      refine Ends.pure ⟨arrived, fun short => ?_⟩
      by_contra apart
      obtain ⟨nextLe, nextMember⟩ := reach.ahead member near adjacent short
      have notTail : position.2 ≠ tailSlot := fun isTail =>
        tail_not_mem ground.roster.distinct (isTail ▸ nextMember)
      exact passes ⟨⟨notTail, UInt64.le_antisymm (ground.key_le_of_rank_le nextMember member nextLe)
        (keyLe.resolve_left notTail)⟩, apart⟩

/-- Looking for a node behind a predecessor that leads to another node with its key. -/
theorem locateBehind_ends {position : Nat × Nat} {earlier : Pool maxLevels Entry}
    (arrived : ground.Arrived temporary level bound earlier position pool)
    (near : ground.rank position.1 ≤ bound) (reach : ground.Reach node level bound pool)
    (keyLe : position.2 = tailSlot ∨ ground.key node ≤ ground.key position.2) :
    Ends (helping.locateBehind node position.1 position.2 level (ground.key node)) pool
      (ground.Looked temporary node level bound pool) := by
  have prevSpine := mem_spine_of_mem_cons arrived.member
  have nextSpine := arrived.adjacent.mem_spine
  have nextLimit := Pool.size_lt_slotLimit (arrived.holds.inside nextSpine)
  have low := arrived.holds.lanes.level_lt arrived.member arrived.there
  have bounded := sound.bound
  unfold locateBehind
  refine Ends.bind (arrived.holds.retain_ends prevSpine fun held => ?_)
  refine Ends.andThen (successor_ends sound held arrived.member (by omega)
    (by rw [Pool.linkOf_recount]; exact arrived.there)) fun cursor after followed => ?_
  have same : cursor.2 = position.2 := by
    refine followed.arrives position.2 ?_
    rw [Pool.next?_recount]
    exact Pool.next?_of_linkOf arrived.leads nextLimit
  have order : [cursor.1, cursor.2, position.1, position.2].Perm
      [position.2, cursor.1, cursor.2, position.1] := by
    exact @List.perm_append_comm Nat [cursor.1, cursor.2, position.1] [position.2]
  refine Ends.bind ((followed.holds.perm (order.append_right temporary)).release_ends nextSpine
    fun released => ?_)
  have tidied : ground.Tidies level bound pool (after.surrendered position.2) :=
    ((Tidied.of_recount _ _ _ _ _ _ _).trans
      (followed.tidied.weaken (Nat.le_refl _) near)).recount _ _
  have goesOn : ground.Arrived (position.1 :: temporary) level bound pool cursor
      (after.surrendered position.2) :=
    ⟨released, tidied, followed.member, by rw [Pool.linkOf_recount]; exact followed.leads,
      followed.adjacent.recount _ _,
      ((Heeded.of_recount _ _ _).trans followed.heeded).recount _ _, followed.vouched.recount _ _⟩
  refine Ends.andThen (passEqual_ends member sound boundLt low helping.bound goesOn
    (Nat.le_trans followed.within near) (reach.tidied member tidied) (by rw [same]; exact keyLe)
    (by omega)) fun final last passed => ?_
  have finalSpine := passed.adjacent.mem_spine
  show Ends (if final.2 = node then _ else _) _ _
  by_cases found : final.2 = node
  · rw [if_pos found, found]
    have releasing : ground.Holds (position.1 :: node :: final.1 :: temporary) last := by
      refine (found ▸ passed.holds).perm ?_
      exact (@List.perm_append_comm Nat [final.1, node] [position.1]).trans
        ((List.Perm.swap node final.1 []).cons position.1) |>.append_right temporary
    have looked : ground.Looked _ node level bound pool (final.1, true) last :=
      passed.looked (fun _ => found) fun _ => rfl
    exact Ends.bind (releasing.releaseBoth_ends prevSpine (mem_spine_of_mem member)
      fun first second => Ends.pure ((looked.released first.swap).released second))
  · rw [if_neg found]
    refine Ends.bind (passed.holds.releaseBoth_ends (mem_spine_of_mem_cons passed.member)
      finalSpine fun _ second => ?_)
    have ended : ground.Tidies level bound pool
        ((last.surrendered final.1).surrendered final.2) :=
      (passed.tidied.recount _ _).recount _ _
    exact Ends.pure ⟨second, ended, arrived.member,
      ended.linkOf_ne_nil arrived.there, nofun, fun short => absurd (passed.found short) found,
      (passed.heeded.recount _ _).recount _ _, arrived.vouched.tidied ended⟩

/-- Looking for a node from any node that can be walked on from. If that one is deleted, it is off
the level in the end. -/
theorem locate_ends (covers : ground.Covers bound (ground.key node)) {start : Nat}
    (holds : ground.Holds (start :: temporary) pool) (startMember : start ∈ headSlot :: ground.line)
    (near : ground.rank start ≤ bound) (there : pool.linkOf start level ≠ Link.nil)
    (reach : ground.Reach node level bound pool) :
    Ends (helping.locate node start level) pool fun answer after =>
      ground.Looked temporary node level bound pool answer after ∧
        (ground.Dead start → after.linkOf start level = Link.cleared) := by
  unfold locate
  refine Ends.bind (holds.bodyAt_ends (mem_spine_of_mem member) ?_)
  refine Ends.andThen (seek_ends sound holds startMember there near boundLt covers)
    fun position after sought => ?_
  have nearAfter := covers.rank_le near sought.within
  have reachAfter := reach.tidied member sought.tidied
  have released_of {linked : Bool}
      (leads : linked = true → position.2 = node) (found : bound < ground.rank node → linked = true)
      (released : ground.Holds (position.1 :: temporary) (after.surrendered position.2)) :
      ground.Looked temporary node level bound pool (position.1, linked)
          (after.surrendered position.2) ∧
        (ground.Dead start → (after.surrendered position.2).linkOf start level = Link.cleared) := by
    refine ⟨(sought.looked leads found).released released, fun dead => ?_⟩
    rw [Pool.linkOf_recount]
    exact sought.off dead
  show Ends (if position.2 = node then _ else _) _ _
  by_cases found : position.2 = node
  · rw [if_pos found]
    exact Ends.bind (sought.holds.swap.release_ends sought.adjacent.mem_spine fun released =>
      Ends.pure (released_of (fun _ => found) (fun _ => rfl) released))
  · rw [if_neg found]
    refine Ends.bind (sought.holds.hasKey_ends sought.adjacent.mem_spine ?_)
    by_cases equal : position.2 ≠ tailSlot ∧
        ground.key position.2 = (ground.start.bodyOf node).key
    · rw [if_pos (decide_eq_true equal)]
      refine (locateBehind_ends member sound boundLt sought.toArrived nearAfter reachAfter
        sought.reached).imp fun answer last looked => ⟨{ looked with
          tidied := sought.tidied.trans looked.tidied
          heeded := sought.heeded.trans looked.heeded }, fun dead =>
            looked.tidied.cleared (sought.off dead)⟩
    · rw [if_neg (by simpa using equal)]
      refine Ends.bind (sought.holds.swap.release_ends sought.adjacent.mem_spine fun released =>
        Ends.pure (released_of nofun (fun short => ?_) released))
      obtain ⟨nextLe, nextMember⟩ := reachAfter.ahead member nearAfter sought.adjacent short
      have notTail : position.2 ≠ tailSlot := fun isTail =>
        tail_not_mem ground.roster.distinct (isTail ▸ nextMember)
      exact absurd ⟨notTail, UInt64.le_antisymm
        (ground.key_le_of_rank_le nextMember member nextLe)
        (sought.reached.resolve_left notTail)⟩ equal

end Looking

end Helping

end PriorityQueue

end PooledContainers
