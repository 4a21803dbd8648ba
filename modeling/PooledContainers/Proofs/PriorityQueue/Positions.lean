/-
Where searches end. A search along a level may start from any held node with a smaller key, also
from one that was committed or taken off its levels since, and it may take nodes off the level on
its way. It ends on the level all the same, in front of the first node there whose key is not below
the key that was sought, and so does a search from the head that comes down over all levels.
-/

import PooledContainers.Proofs.PriorityQueue.Runs

namespace PooledContainers

namespace PriorityQueue

open Line Operation Pool

/-! ### Positions on a level -/

/-- A slot is that of the first node on a level whose key is not below a key, or the tail if there
is none. -/
def FirstOn (pool : Pool maxLevels Entry) (level : Nat) (key : UInt64) (next : Nat) : Prop :=
  ∃ slots, Visits pool level (pool.linkOf headSlot level) slots ∧
    next = (slots.find? fun slot => decide (key ≤ keyOf pool slot)).getD tailSlot

/-- The position for a key on a level: a predecessor on the level and the first node there whose key
is not below the key. -/
structure Position (pool : Pool maxLevels Entry) (level : Nat) (key : UInt64) (prev next : Nat) :
    Prop where
  met : pool.Met level prev
  before : prev = headSlot ∨ keyOf pool prev < key
  unmarked : (pool.linkOf prev level).isMarked = false
  leads : pool.next? level prev = some next
  first : FirstOn pool level key next

namespace Consistent

variable {maxHeight : Nat} {line free fresh : List Nat} {pending : Nat → Bool} {held : Nat → Nat}
  {pool after : Pool maxLevels Entry} {level prev next : Nat} {key : UInt64}

/-- What stands on a level in front of the node behind a predecessor with a smaller key has a
smaller key, too. -/
theorem key_lt_of_adjacent (consistent : Consistent maxHeight line free fresh pending held pool)
    (before : prev = headSlot ∨ prev ∈ line ∧ keyOf pool prev < key)
    (adjacent : Adjacent line pool level prev next) {slot : Nat} (member : slot ∈ line)
    (linked : pool.Linked level slot) (early : rank line slot < rank line next) :
    keyOf pool slot < key := by
  have le : rank line slot ≤ rank line prev :=
    Nat.not_lt.mp fun behind => Nat.not_lt_of_le (adjacent.between slot member linked behind) early
  rcases before with rfl | ⟨inLine, smaller⟩
  · have positive := rank_pos consistent.roster.distinct member
    rw [rank_head] at le
    exact absurd positive (Nat.not_lt_of_le le)
  · exact UInt64.lt_of_le_of_lt (consistent.ground.key_le_of_rank_le member inLine le) smaller

/-- The node behind a predecessor with a smaller key is the first one whose key is not below the
key, unless its own is. -/
theorem firstOn (consistent : Consistent maxHeight line free fresh pending held pool)
    (low : level < maxHeight) (before : prev = headSlot ∨ prev ∈ line ∧ keyOf pool prev < key)
    (adjacent : Adjacent line pool level prev next)
    (reached : next = tailSlot ∨ key ≤ keyOf pool next) : FirstOn pool level key next := by
  have distinct := consistent.roster.distinct
  obtain ⟨slots, visits, ascending, members⟩ := consistent.exists_level low
  have passed : ∀ slot ∈ slots, rank line slot < rank line next →
      ¬ decide (key ≤ keyOf pool slot) = true := by
    intro slot inSlots early
    obtain ⟨member, linked⟩ := (members slot).mp inSlots
    rw [decide_eq_true_eq]
    exact UInt64.not_le.mpr (consistent.key_lt_of_adjacent before adjacent member linked early)
  refine ⟨slots, visits, ?_⟩
  rcases adjacent.ends with isTail | ⟨member, linked⟩
  · have none : slots.find? (fun slot => decide (key ≤ keyOf pool slot)) = none := by
      refine List.find?_eq_none.mpr fun slot inSlots => passed slot inSlots ?_
      rw [isTail]
      exact rank_lt_rank_tail distinct (List.mem_cons_of_mem _ ((members slot).mp inSlots).1)
    rw [none, isTail]
    rfl
  · have notTail : next ≠ tailSlot := fun isTail => tail_not_mem distinct (isTail ▸ member)
    obtain ⟨front, behind, rfl⟩ := List.append_of_mem ((members next).mpr ⟨member, linked⟩)
    have none : front.find? (fun slot => decide (key ≤ keyOf pool slot)) = none := by
      refine List.find?_eq_none.mpr fun slot inFront => ?_
      exact passed slot (List.mem_append_left _ inFront)
        ((List.pairwise_append.mp ascending).2.2 slot inFront next List.mem_cons_self)
    have here : (next :: behind).find? (fun slot => decide (key ≤ keyOf pool slot)) = some next :=
      List.find?_cons_of_pos (decide_eq_true (reached.resolve_left notTail))
    rw [List.find?_append, none, Option.none_or, here]
    rfl

/-- After a walk, the keys are as they were before. -/
theorem firstOn_of_holds (consistent : Consistent maxHeight line free fresh pending held pool)
    {temporary : List Nat} (holds : consistent.ground.Holds temporary after)
    (members : ∀ slot ∈ temporary, slot ∈ spine line) (low : level < maxHeight)
    (before : prev = headSlot ∨ prev ∈ line ∧ keyOf pool prev < key)
    (adjacent : Adjacent line after level prev next)
    (reached : next = tailSlot ∨ key ≤ keyOf pool next) : FirstOn after level key next := by
  have sameKey : ∀ slot, keyOf after slot = keyOf pool slot :=
    fun slot => congrArg Entry.key (holds.tidied.body slot)
  refine (consistent.walked holds members).firstOn low ?_ adjacent ?_
  · rwa [sameKey]
  · rwa [sameKey]

end Consistent

/-! ### Searches -/

namespace InOrder

variable {options : Options} {history : History} {session : Session PriorityQueue Handle}
  {line free : List Nat} {node level : Nat} {key : UInt64}

/-- A search along a level from a node with a smaller key. -/
theorem seek_position (inOrder : InOrder options history session line free)
    (start : node = headSlot ∨ node ∈ line ∧ keyOf session.subject.pool node < key)
    (reached : level < (session.subject.pool.bodyOf node).height) :
    Ends (onLevels walkBound fun helping _ => do
        Pool.retain node
        helping.seek node level key) session.subject fun position after =>
      Position after.pool level key position.1 position.2 := by
  have consistent := inOrder.consistent
  have member : node ∈ headSlot :: line :=
    List.mem_cons.mpr (start.imp_right fun inner => inner.1)
  refine inOrder.startingFrom_ends member fun retained => ?_
  refine (inOrder.seekFromNode_ends key member reached retained).imp fun position after sought => ?_
  have before := Ground.smaller_of_within start sought.within sought.member
  have nextLimit := size_lt_slotLimit (sought.holds.inside sought.adjacent.mem_spine)
  have leads : after.next? level position.1 = some position.2 :=
    next?_of_linkOf sought.leads nextLimit
  have linked := Linked.of_next? leads
  exact {
    met := (consistent.walked sought.holds sought.mem_spine).met_of_linked sought.member linked
    before := before.imp_right fun smaller => by
      show (after.bodyOf position.1).key < key
      rw [sought.holds.tidied.body]
      exact smaller.2
    unmarked := by
      show (after.linkOf position.1 level).isMarked = false
      rw [sought.leads, Link.isMarked_ofSlot nextLimit]
    leads := leads
    first := consistent.firstOn_of_holds sought.holds sought.mem_spine
      (sought.holds.lanes.level_lt sought.member linked.ne_nil) before sought.adjacent
      sought.reached }

/-- A search from the head down over all levels. -/
theorem firstFrom_first (inOrder : InOrder options history session line free) (key : UInt64) :
    Ends (onLevels walkBound fun helping maxHeight => helping.firstFrom maxHeight key)
      session.subject fun next after => FirstOn after.pool 0 key next := by
  have consistent := inOrder.consistent
  have covers : consistent.ground.Covers line.length key := fun slot member _ =>
    rank_le_length consistent.roster.distinct (List.mem_cons_of_mem _ member)
  refine onLevels_ends inOrder.maxHeight ((Helping.firstFrom_ends consistent.sound
    consistent.holds (Nat.lt_add_of_pos_right Nat.two_pos) covers).imp fun next after found => ?_)
  obtain ⟨holds, -, prev, member, adjacent, before, reached⟩ := found
  refine consistent.firstOn_of_holds holds (fun slot held => ?_) consistent.roster.heights.1 before
    adjacent reached
  rw [List.mem_singleton.mp held]
  exact adjacent.mem_spine

end InOrder

/-! ### Runs -/

/-- Where the searches in a queue end. -/
structure Searches (session : Session PriorityQueue Handle) : Prop where
  /-- A handle is on a sentinel or on a node that was inserted, whatever became of it since. -/
  held : ∀ name handle, session.handles.find? name = some handle →
    isSentinel handle.node = true ∨ Inserted session.subject.pool handle.node
  /-- A search along a level from the head or from any node with a smaller key ends at the position
  for the key. -/
  seek : ∀ node level key,
    node = headSlot ∨ Inserted session.subject.pool node ∧ keyOf session.subject.pool node < key →
    level < (session.subject.pool.bodyOf node).height →
      Ends (onLevels walkBound fun helping _ => do
          Pool.retain node
          helping.seek node level key) session.subject fun position after =>
        Position after.pool level key position.1 position.2
  /-- A search from the head ends at the first node at level 0 whose key is not below the key. -/
  firstFrom : ∀ key,
    Ends (onLevels walkBound fun helping maxHeight => helping.firstFrom maxHeight key)
      session.subject fun next after => FirstOn after.pool 0 key next

/-- In every session of a legal run all searches end where they should, whatever is left half
done. -/
theorem searches_end {options : Options} {history : History}
    {session : Session PriorityQueue Handle} (reached : Reached options history session) :
    Searches session := by
  obtain ⟨line, free, inOrder⟩ := reached.inOrder
  refine ⟨fun _ _ found => inOrder.handle_inserted found, fun node level key start low => ?_,
    inOrder.firstFrom_first⟩
  exact inOrder.seek_position (start.imp_right fun both =>
    ⟨(inOrder.consistent.inserted_iff node).mp both.1, both.2⟩) low

/-- A search may start from a node that is half removed, with a newer node of its key in front. -/
theorem searches_end_halfRemoved : ∃ history session handle,
    followFromStart smallOptions halfRemoved = some (history, session) ∧
      HalfDone history session handle ∧ Searches session := by
  obtain ⟨history, session, handle, followed, halfDone⟩ := exists_halfRemoved
  exact ⟨history, session, handle, followed, halfDone, searches_end (Reached.of_steps followed)⟩

end PriorityQueue

end PooledContainers
