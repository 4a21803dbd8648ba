/-
Where the search in a list ends. It may meet marked nodes anywhere on its way, many of them in a
row, right in front of the key that is sought or right in front of the tail. It takes all of them
off the chain, each with a cleared link, and nothing else; it ends at the first live node whose key
is not below the key, or at the tail, with the live node in front of it.
-/

import PooledContainers.Proofs.SortedList.Shape

namespace PooledContainers

namespace SortedList

open Line Operation Pool

/-- Where a search for a key ends, and what it leaves. The chain was what the search has passed and
what stands behind. -/
structure Sought (key : Int64) (list : SortedList) (position : Nat × Nat) (after : SortedList)
    (passed behind : List Nat) : Prop where
  before : ChainShape list.pool (passed ++ behind)
  /-- Off the chain are the marked nodes that were passed, and no others, -/
  chain : ChainShape after.pool (liveNodes list.pool passed ++ behind)
  /-- each with a cleared link. -/
  cleared : ∀ slot ∈ passed, Marked list.pool slot → after.pool.linkOf slot 0 = Link.cleared
  /-- The node found comes next, and no marked node is left in front of it. -/
  next : position.2 = behind.headD tailSlot
  clean : ∀ slot ∈ liveNodes list.pool passed, ¬ Marked after.pool slot
  /-- It is the first live node whose key is not below the one sought, or the tail. -/
  first : position.2 = ((liveNodes list.pool passed ++ behind).find? fun slot =>
    decide (¬ Marked after.pool slot ∧ key ≤ keyOf after.pool slot)).getD tailSlot
  /-- The predecessor is the head or a live node with a smaller key, and points to it. -/
  prev : position.1 = headSlot ∨
    position.1 ∈ liveNodes list.pool passed ∧ keyOf after.pool position.1 < key
  unmarked : ¬ Marked after.pool position.1
  leads : after.pool.linkOf position.1 0 = Link.ofSlot position.2
  /-- Both come with a count, and no other counter changes. -/
  held : ∀ slot < list.pool.size, after.pool.counterOf slot =
    list.pool.counterOf slot + 2 * [position.1, position.2].count slot
  live : ∀ slot, Live after.pool slot ↔ Live list.pool slot
  body : ∀ slot, after.pool.bodyOf slot = list.pool.bodyOf slot
  length : after.length = list.length
  available : ∃ number, list.available = .ok number ∧ after.available = .ok number

/-! ### The place of a position -/

namespace Ground.Found

variable {ground : Ground} {temporary : List Nat} {wanted : Int64} {position : Nat × Nat}
  {pool : Pool 1 Entry}

/-- The line falls into what a search has passed and what stands behind. -/
theorem exists_passed (found : ground.Found temporary wanted position pool) :
    ∃ passed behind, ground.line = passed ++ behind ∧ position.2 = behind.headD tailSlot ∧
      (∀ slot ∈ passed, ground.rank slot < ground.rank position.2) ∧
      ∀ slot ∈ behind, ground.rank position.2 ≤ ground.rank slot := by
  have distinct := ground.strung.distinct
  rcases found.reached with isTail | ⟨member, -⟩
  · refine ⟨ground.line, [], (List.append_nil _).symm, isTail, fun slot member => ?_, by simp⟩
    rw [isTail]
    exact rank_lt_rank_tail distinct (List.mem_cons_of_mem _ member)
  · obtain ⟨passed, rest, split, front, back⟩ := exists_split distinct member
    exact ⟨passed, position.2 :: rest, split, rfl, front, back⟩

section Split

variable (found : ground.Found temporary wanted position pool) {passed behind : List Nat}
  (split : ground.line = passed ++ behind)

include found split

/-- The predecessor is the head or a live node that was passed. -/
theorem prev_passed (rest : ∀ slot ∈ behind, ground.rank position.2 ≤ ground.rank slot) :
    position.1 = headSlot ∨
      position.1 ∈ liveNodes ground.start passed ∧ keyOf pool position.1 < wanted := by
  rw [keyOf_congr (found.holds.tidied.body position.1)]
  refine (List.mem_cons.mp found.member).imp_right fun inLine => ?_
  have inner : position.1 ≠ headSlot := fun same =>
    head_not_mem ground.strung.distinct (same ▸ inLine)
  have inPassed : position.1 ∈ passed := by
    rw [split] at inLine
    exact (List.mem_append.mp inLine).resolve_right fun inBehind =>
      Nat.not_lt_of_le (rest _ inBehind) found.adjacent.before
  exact ⟨mem_liveNodes.mpr ⟨inPassed, found.alive⟩, found.before.resolve_left inner⟩

variable (front : ∀ slot ∈ passed, ground.rank slot < ground.rank position.2)

include front

/-- What is left of the line is what is live of the part passed, and the rest. -/
theorem remaining_eq (swept : ground.Swept headSlot position.2 ground.start pool)
    (rest : ∀ slot ∈ behind, ground.rank position.2 ≤ ground.rank slot) :
    remaining ground.line pool = liveNodes ground.start passed ++ behind := by
  have early : passed.filter (fun slot => decide (pool.Linked 0 slot)) =
      liveNodes ground.start passed := by
    refine List.filter_congr fun slot member => decide_eq_decide.mpr ?_
    have inLine : slot ∈ ground.line := split ▸ List.mem_append_left _ member
    exact ⟨fun linked dead => found.not_linked inLine (front slot member) dead linked,
      found.holds.linked_of_alive (List.mem_cons_of_mem _ inLine)⟩
  have late : behind.filter (fun slot => decide (pool.Linked 0 slot)) = behind := by
    refine List.filter_eq_self.mpr fun slot member => decide_eq_true ?_
    exact (ground.strung.linked slot (split ▸ List.mem_append_right _ member)).congr
      (next?_congr (swept.links slot (rest slot member) 0))
  unfold remaining
  rw [split, List.filter_append, early, late]

/-- The node found is the first live one on the chain whose key is not below the one wanted. -/
theorem eq_find? (next : position.2 = behind.headD tailSlot) :
    position.2 = ((liveNodes ground.start passed ++ behind).find? fun slot =>
      decide (¬ Marked pool slot ∧ wanted ≤ keyOf pool slot)).getD tailSlot := by
  have key : ∀ slot, keyOf pool slot = ground.key slot := fun slot =>
    keyOf_congr (found.holds.tidied.body slot)
  have early : (liveNodes ground.start passed).find? (fun slot =>
      decide (¬ Marked pool slot ∧ wanted ≤ keyOf pool slot)) = none := by
    refine List.find?_eq_none.mpr fun slot member => ?_
    obtain ⟨inPassed, alive⟩ := mem_liveNodes.mp member
    rw [decide_eq_true_eq, key]
    exact fun both => Nat.not_lt_of_le (found.rank_le (split ▸ List.mem_append_left _ inPassed)
      alive both.2) (front slot inPassed)
  rw [List.find?_append, early, Option.none_or]
  cases behind with
  | nil => exact next
  | cons node rest =>
    obtain rfl : position.2 = node := next
    have member : position.2 ∈ ground.line := by
      rw [split]
      simp
    have notTail : position.2 ≠ tailSlot := fun same =>
      tail_not_mem ground.strung.distinct (same ▸ member)
    obtain ⟨-, alive, reached⟩ := found.reached.resolve_left notTail
    rw [List.find?_cons_of_pos]
    · rfl
    · rw [decide_eq_true_eq, key]
      exact ⟨(found.holds.marked_iff _).not.mpr alive, reached⟩

end Split

end Ground.Found

/-! ### Searches -/

theorem Consistent.search_sought {line free : List Nat} {pending : Nat → Bool} {held : Nat → Nat}
    {list : SortedList} (consistent : Consistent line free [] pending held list.pool)
    (key : Int64) : Ends (onNodes (search key)) list fun position after =>
      ∃ passed behind, Sought key list position after passed behind := by
  refine onNodes_ends ((search_ends_sparing consistent.holds key).imp
    fun position pool ended => ?_)
  obtain ⟨found, swept⟩ := ended
  obtain ⟨passed, behind, split, next, front, rest⟩ := found.exists_passed
  have left : remaining line pool = liveNodes list.pool passed ++ behind :=
    found.remaining_eq split front swept rest
  have members : ∀ slot ∈ [position.1, position.2], slot ∈ spine line := by
    simp only [List.mem_cons, List.not_mem_nil, or_false, forall_eq_or_imp, forall_eq]
    exact ⟨mem_spine_of_mem_cons found.member, found.adjacent.mem_spine⟩
  have later := consistent.walked found.holds members
  obtain rfl : line = passed ++ behind := split
  exact ⟨passed, behind, {
    before := consistent.chainShape
    chain := left ▸ later.chainShape
    cleared := fun slot member dead => found.holds.cleared_of_not_linked
      (List.mem_append_left _ member)
      (found.not_linked (List.mem_append_left _ member) (front slot member) dead)
    next := next
    clean := fun slot member =>
      (found.holds.marked_iff slot).not.mpr (mem_liveNodes.mp member).2
    first := found.eq_find? rfl front next
    prev := found.prev_passed rfl rest
    unmarked := (found.holds.marked_iff position.1).not.mpr found.alive
    leads := found.leads
    held := fun slot inside => found.holds.held slot (found.holds.size.symm ▸ inside)
    live := consistent.live_iff_of_holds found.holds members
    body := found.holds.tidied.body
    length := rfl
    available := ⟨free.length, consistent.available_eq, later.available_eq⟩ }⟩

/-- In every session of a run each search ends where it should, whatever is left half done, and it
never has to start over. -/
theorem searches_find {capacity : UInt64} {pending : Nat → Bool}
    {session : Session SortedList Handle} (reached : Reached capacity pending session)
    (key : Int64) : Ends (onNodes (search key)) session.subject fun position after =>
      ∃ passed behind, Sought key session.subject position after passed behind := by
  obtain ⟨line, free, consistent⟩ := reached.inOrder.consistent
  exact consistent.search_sought key

/-- A search may go over marked nodes to the tail. -/
theorem searches_find_markedToEnd : ∃ pending session last,
    followFromStart 4 markedToEnd = some (pending, session) ∧
      session.handles.find? "last" = some last ∧
      session.subject.pool.Linked 0 last.node ∧ Marked session.subject.pool last.node ∧
      Ends (onNodes (search 5)) session.subject fun position after =>
        ∃ passed behind, Sought 5 session.subject position after passed behind := by
  obtain ⟨pending, session, last, followed, named, -, linked, marked⟩ := exists_markedToEnd
  exact ⟨pending, session, last, followed, named, linked, marked,
    searches_find (Reached.of_steps followed) 5⟩

end SortedList

end PooledContainers
