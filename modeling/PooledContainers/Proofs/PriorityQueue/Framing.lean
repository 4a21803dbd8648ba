/-
What helping leaves alone. The search for a successor, the search along a level, helping a committed
node and taking it off a level write links from the level up, and only to finish deletions. Of all
the rest no walk changes anything, but for the counts of what it returns, so the live nodes of each
level stand there in the same order before and afterwards.
-/

import Mathlib.Data.List.Sort
import PooledContainers.Proofs.PriorityQueue.Landing

namespace PooledContainers

namespace PriorityQueue

open Line Operation Pool

/-! ### What a walk at a level leaves alone -/

/-- The nodes on a level that are not deleted, in the order in which the walk along it meets
them. -/
def LiveOn (pool : Pool maxLevels Entry) (level : Nat) (live : List Nat) : Prop :=
  ∃ slots, Visits pool level (pool.linkOf headSlot level) slots ∧
    live = slots.filter fun slot => decide (¬ Deleted pool slot)

/-- A walk at a level has changed nothing but what finishes deletions, and holds counts on what it
returns. -/
structure Framed (level : Nat) (queue : PriorityQueue) (returned : List Nat)
    (after : PriorityQueue) : Prop where
  /-- The length and all else but the nodes is as it was. -/
  rest : after = { queue with pool := after.pool }
  size : after.pool.size = queue.pool.size
  body : ∀ slot, after.pool.bodyOf slot = queue.pool.bodyOf slot
  back : ∀ slot, after.pool.backOf slot = queue.pool.backOf slot
  counters : ∀ slot < queue.pool.size,
    after.pool.counterOf slot = queue.pool.counterOf slot + 2 * returned.count slot
  freeHead : after.pool.freeHead = queue.pool.freeHead
  /-- The free list runs through the same slots. -/
  chain : ∃ free, queue.pool.FreeChain queue.pool.freeHead free ∧
    after.pool.FreeChain after.pool.freeHead free
  below : ∀ slot height, height < level →
    after.pool.linkOf slot height = queue.pool.linkOf slot height
  outside : ∀ slot, slot ≠ headSlot → ¬ Inserted queue.pool slot → ∀ height,
    after.pool.linkOf slot height = queue.pool.linkOf slot height
  /-- All that was written finished deletions at levels from this one up. -/
  written : Relation.ReflTransGen (Tidying (Deleted queue.pool) level) queue.pool after.pool
  live : ∀ height < queue.maxHeight, ∃ live,
    LiveOn queue.pool height live ∧ LiveOn after.pool height live

namespace Consistent

variable {maxHeight : Nat} {line free fresh : List Nat} {pending : Nat → Bool} {held : Nat → Nat}
  {pool after : Pool maxLevels Entry}

/-- After a walk, the same live nodes stand on each level, in the same order. -/
theorem exists_liveOn (consistent : Consistent maxHeight line free fresh pending held pool)
    {returned : List Nat} (holds : consistent.ground.Holds returned after)
    (members : ∀ slot ∈ returned, slot ∈ spine line) {level : Nat} (low : level < maxHeight) :
    ∃ live, LiveOn pool level live ∧ LiveOn after level live := by
  obtain ⟨slots, visits, ascending, linked⟩ := consistent.exists_level low
  obtain ⟨left, visitsAfter, ascendingAfter, linkedAfter⟩ :=
    (consistent.walked holds members).exists_level low
  have deleted (slot : Nat) : Deleted after slot ↔ Deleted pool slot :=
    deleted_congr (holds.tidied.body slot)
  refine ⟨_, ⟨slots, visits, rfl⟩, left, visitsAfter, ?_⟩
  -- Both sequences ascend in the line, so their members determine them.
  have strict : Std.Asymm fun front behind => rank line front < rank line behind :=
    ⟨fun _ _ => Nat.lt_asymm⟩
  refine (ascending.filter _).eq_of_mem_iff (ascendingAfter.filter _) fun slot => ?_
  rw [List.mem_filter, List.mem_filter, decide_eq_true_eq, decide_eq_true_eq, linked, linkedAfter,
    deleted]
  refine and_congr_left fun alive => and_congr_right fun _ => ?_
  exact ⟨holds.tidied.kept slot alive level, holds.tidied.linked slot level⟩

end Consistent

namespace InOrder

variable {options : Options} {history : History} {session : Session PriorityQueue Handle}
  {line free : List Nat} {node start level : Nat}

/-- A walk that tidies at a level, and took a count on a node to start from. -/
theorem framed (inOrder : InOrder options history session line free) {returned : List Nat}
    {bound : Nat} {pool : Pool maxLevels Entry}
    (holds : inOrder.consistent.ground.Holds returned pool)
    (tidied : inOrder.consistent.ground.Tidies level bound (session.subject.pool.retained start)
      pool)
    (members : ∀ slot ∈ returned, slot ∈ spine line) :
    Framed level session.subject returned { session.subject with pool } := by
  have consistent := inOrder.consistent
  have fromStart : consistent.ground.Tidies level bound session.subject.pool pool :=
    (Tidied.of_recount _ _ _ _ _ _ _).trans tidied
  refine ⟨rfl, holds.size, fromStart.body, fromStart.back, fun slot inside => ?counters,
    fromStart.freeHead, ⟨free, consistent.accounted.chain, ?chain⟩, fromStart.below,
    fun slot notHead notInserted => fromStart.outside slot ?outside, fromStart.written,
    fun height low => consistent.exists_liveOn holds members (inOrder.maxHeight ▸ low)⟩
  case counters => exact holds.held slot (by rwa [holds.size])
  case chain => exact (consistent.walked holds members).accounted.chain
  case outside =>
    intro member
    exact notInserted ((consistent.inserted_iff slot).mpr (List.mem_of_ne_of_mem notHead member))

/-- A walk that arrives at a position and returns it. -/
theorem framed_of_arrived (inOrder : InOrder options history session line free) {bound : Nat}
    {position : Nat × Nat} {pool : Pool maxLevels Entry}
    (arrived : inOrder.consistent.ground.Arrived [] level bound
      (session.subject.pool.retained start) position pool) :
    Framed level session.subject [position.1, position.2] { session.subject with pool } :=
  inOrder.framed arrived.holds arrived.tidied arrived.mem_spine

/-- A walk that returns a single node. -/
theorem framed_of_mem (inOrder : InOrder options history session line free) {bound prev : Nat}
    {pool : Pool maxLevels Entry} (member : prev ∈ headSlot :: line)
    (holds : inOrder.consistent.ground.Holds [prev] pool)
    (tidied : inOrder.consistent.ground.Tidies level bound (session.subject.pool.retained start)
      pool) : Framed level session.subject [prev] { session.subject with pool } :=
  inOrder.framed holds tidied fun _ held =>
    List.mem_singleton.mp held ▸ mem_spine_of_mem_cons member

/-! ### The walks one by one -/

theorem successorOf_framed (inOrder : InOrder options history session line free)
    (member : node ∈ headSlot :: line)
    (reached : level < (session.subject.pool.bodyOf node).height) :
    Ends (successorOf node level) session.subject fun position after =>
      Framed level session.subject [position.1, position.2] after := by
  refine inOrder.startingFrom_ends member fun retained => ?_
  exact (inOrder.successorFromNode_ends member reached retained).imp fun _ _ succeeded =>
    inOrder.framed_of_arrived succeeded.toArrived

theorem seek_framed (inOrder : InOrder options history session line free) (key : UInt64)
    (member : node ∈ headSlot :: line)
    (reached : level < (session.subject.pool.bodyOf node).height) :
    Ends (onLevels walkBound fun helping _ => do
        Pool.retain node
        helping.seek node level key) session.subject fun position after =>
      Framed level session.subject [position.1, position.2] after := by
  refine inOrder.startingFrom_ends member fun retained => ?_
  exact (inOrder.seekFromNode_ends key member reached retained).imp fun _ _ sought =>
    inOrder.framed_of_arrived sought.toArrived

theorem help_framed (inOrder : InOrder options history session line free) (member : node ∈ line)
    (dead : Deleted session.subject.pool node)
    (reached : level < (session.subject.pool.bodyOf node).height) :
    Ends (onLevels walkBound fun helping _ => do
        Pool.retain node
        helping.help node level) session.subject fun prev after =>
      Framed level session.subject [prev] after := by
  have inner := List.mem_cons_of_mem headSlot member
  refine inOrder.startingFrom_ends inner fun retained => ?_
  exact (inOrder.consistent.sound.help node member (inOrder.rank_lt_bound inner) level reached _ _
    retained dead).imp fun _ _ finished =>
      inOrder.framed_of_mem finished.member finished.holds finished.tidied

theorem bypass_framed (inOrder : InOrder options history session line free) (member : node ∈ line)
    (dead : Deleted session.subject.pool node)
    (reached : level < (session.subject.pool.bodyOf node).height)
    (starts : start ∈ headSlot :: line)
    (startReached : level < (session.subject.pool.bodyOf start).height) :
    Ends (onLevels walkBound fun helping _ => do
        Pool.retain start
        helping.bypass node start level) session.subject fun prev after =>
      Framed level session.subject [prev] after := by
  have consistent := inOrder.consistent
  have short (slot : Nat) (inner : slot ∈ headSlot :: line) : rank line slot ≤ line.length :=
    rank_le_length consistent.roster.distinct inner
  have inGround : node ∈ consistent.ground.line := member
  refine inOrder.startingFrom_ends starts fun retained => ?_
  refine (Helping.bypassWithin_ends inGround dead reached consistent.sound
    (Nat.lt_add_of_pos_right Nat.two_pos) (fun slot inLine _ => short slot
      (List.mem_cons_of_mem _ inLine)) (Or.inr (Nat.le_refl _)) retained starts
    (short start starts) ?_).imp fun _ _ bypassed =>
      inOrder.framed_of_mem bypassed.member bypassed.holds bypassed.tidied
  rw [linkOf_recount]
  exact inOrder.there_of_reached starts startReached

end InOrder

/-! ### Runs -/

/-- What the walks that help leave alone in a queue. -/
structure Frames (session : Session PriorityQueue Handle) : Prop where
  /-- A handle is on a sentinel or on a node that was inserted, whatever became of it since. -/
  held : ∀ name handle, session.handles.find? name = some handle →
    isSentinel handle.node = true ∨ Inserted session.subject.pool handle.node
  successor : ∀ node level, node = headSlot ∨ Inserted session.subject.pool node →
    level < (session.subject.pool.bodyOf node).height →
      Ends (successorOf node level) session.subject fun position after =>
        Framed level session.subject [position.1, position.2] after
  seek : ∀ node level key, node = headSlot ∨ Inserted session.subject.pool node →
    level < (session.subject.pool.bodyOf node).height →
      Ends (onLevels walkBound fun helping _ => do
          Pool.retain node
          helping.seek node level key) session.subject fun position after =>
        Framed level session.subject [position.1, position.2] after
  help : ∀ node level, Inserted session.subject.pool node → Deleted session.subject.pool node →
    level < (session.subject.pool.bodyOf node).height →
      Ends (onLevels walkBound fun helping _ => do
          Pool.retain node
          helping.help node level) session.subject fun prev after =>
        Framed level session.subject [prev] after
  /-- A committed node may be taken off a level from any node that reaches it. -/
  bypass : ∀ node start level, Inserted session.subject.pool node →
    Deleted session.subject.pool node → level < (session.subject.pool.bodyOf node).height →
    start = headSlot ∨ Inserted session.subject.pool start →
    level < (session.subject.pool.bodyOf start).height →
      Ends (onLevels walkBound fun helping _ => do
          Pool.retain start
          helping.bypass node start level) session.subject fun prev after =>
        Framed level session.subject [prev] after

/-- In every session of a legal run the walks that help leave alone all but what finishes deletions,
whatever is left half done. -/
theorem walks_framed {options : Options} {history : History}
    {session : Session PriorityQueue Handle} (reached : Reached options history session) :
    Frames session := by
  obtain ⟨line, free, inOrder⟩ := reached.inOrder
  have inserted_iff := inOrder.consistent.inserted_iff
  have inner (node : Nat) (starts : node = headSlot ∨ Inserted session.subject.pool node) :
      node ∈ headSlot :: line := List.mem_cons.mpr (starts.imp_right (inserted_iff node).mp)
  exact {
    held := fun _ _ found => inOrder.handle_inserted found
    successor := fun node _ starts low => inOrder.successorOf_framed (inner node starts) low
    seek := fun node _ key starts low => inOrder.seek_framed key (inner node starts) low
    help := fun node _ inserted dead low =>
      inOrder.help_framed ((inserted_iff node).mp inserted) dead low
    bypass := fun node start _ inserted dead low starts startLow =>
      inOrder.bypass_framed ((inserted_iff node).mp inserted) dead low (inner start starts)
        startLow }

/-- A removal that is half done may be helped on, with a newer node of its key in front. -/
theorem walks_framed_halfRemoved : ∃ history session handle,
    followFromStart smallOptions halfRemoved = some (history, session) ∧
      HalfDone history session handle ∧ Frames session := by
  obtain ⟨history, session, handle, followed, halfDone⟩ := exists_halfRemoved
  exact ⟨history, session, handle, followed, halfDone, walks_framed (Reached.of_steps followed)⟩

end PriorityQueue

end PooledContainers
