/-
The shape of a queue. Each level is a chain from the head to the tail, sorted by key and among equal
keys by age, and it has just the nodes that reach the level and have not been taken off it. Only
committed nodes are taken off or carry marks.
-/

import PooledContainers.Proofs.PriorityQueue.Runs

namespace PooledContainers

namespace PriorityQueue

open Line Pool

/-- What the walk along a level meets. -/
structure LevelShape (history : History) (pool : Pool maxLevels Entry) (level : Nat)
    (slots : List Nat) : Prop where
  /-- The walk from the head meets these slots and ends at the tail. -/
  visits : Visits pool level (pool.linkOf headSlot level) slots
  /-- It meets no slot twice. -/
  distinct : slots.Nodup
  ascending : slots.Pairwise fun front behind => keyOf pool front ≤ keyOf pool behind
  /-- It meets the nodes that reach the level and whose link there is not cleared. -/
  mem_iff : ∀ slot, slot ∈ slots ↔ Inserted pool slot ∧ level < (pool.bodyOf slot).height ∧
    pool.linkOf slot level ≠ Link.cleared
  /-- Of several nodes with one key the newer stand in front, and only the first may be live. -/
  equal : slots.Pairwise fun front behind => keyOf pool front = keyOf pool behind →
    history.birth behind < history.birth front ∧ Deleted pool behind

/-- The shape of a queue. -/
structure Shaped (history : History) (queue : PriorityQueue) : Prop where
  levels : ∀ level < queue.maxHeight, ∃ slots, LevelShape history queue.pool level slots
  /-- A live node is linked at all of its levels and at no other. -/
  live : ∀ slot, Live queue.pool slot → ∀ level,
    queue.pool.Linked level slot ↔ level < (queue.pool.bodyOf slot).height
  /-- Marks are set on committed nodes only. -/
  marked : ∀ slot, Inserted queue.pool slot → ∀ level,
    (queue.pool.linkOf slot level).isMarked = true → Deleted queue.pool slot
  sentinels : ∀ slot, isSentinel slot = true → ¬ Deleted queue.pool slot ∧
    ∀ level, (queue.pool.linkOf slot level).isMarked = false
  heights : ∀ slot, Inserted queue.pool slot → 1 ≤ (queue.pool.bodyOf slot).height ∧
    (queue.pool.bodyOf slot).height ≤ queue.maxHeight
  whole : ∀ slot, Inserted queue.pool slot →
    (queue.pool.bodyOf slot).validHeight = (queue.pool.bodyOf slot).height

namespace Consistent

variable {maxHeight : Nat} {line free : List Nat} {pending : Nat → Bool} {held : Nat → Nat}
  {pool : Pool maxLevels Entry}

theorem exists_levelShape (consistent : Consistent maxHeight line free [] pending held pool)
    {history : History} (dated : Dated history.clock history.birth line pool) {level : Nat}
    (low : level < maxHeight) : ∃ slots, LevelShape history pool level slots := by
  obtain ⟨slots, visits, ordered, members⟩ := consistent.exists_level low
  have within : ∀ slot ∈ slots, slot ∈ line := fun slot member => ((members slot).mp member).1
  have placed : slots.Pairwise fun front behind =>
      front ∈ line ∧ behind ∈ line ∧ rank line front < rank line behind := by
    refine List.Pairwise.imp_of_mem (fun frontMember behindMember before => ?_) ordered
    exact ⟨within _ frontMember, within _ behindMember, before⟩
  refine ⟨slots, visits, ?distinct, ?ascending, ?mem_iff, ?equal⟩
  case distinct => exact nodup_of_ascending ordered
  case ascending =>
    exact placed.imp fun both => consistent.ground.key_le_of_rank_le both.1
      both.2.1 (Nat.le_of_lt both.2.2)
  case mem_iff =>
    intro slot
    rw [members, consistent.inserted_iff]
    exact and_congr_right fun member => consistent.linked_iff member level
  case equal =>
    refine placed.imp fun {front behind} both same => ?_
    obtain ⟨frontMember, behindMember, before⟩ := both
    refine ⟨dated.newer front frontMember behind behindMember before same, ?_⟩
    refine ((consistent.roster.sorted front frontMember behind behindMember before).resolve_left
      fun less => ?_).2
    rw [same] at less
    exact UInt64.lt_irrefl _ less

end Consistent

theorem InOrder.shaped {options : Options} {history : History}
    {session : Session PriorityQueue Handle} {line free : List Nat}
    (inOrder : InOrder options history session line free) : Shaped history session.subject := by
  have consistent := inOrder.consistent
  have member : ∀ slot, Inserted session.subject.pool slot → slot ∈ line :=
    fun slot => (consistent.inserted_iff slot).mp
  refine ⟨fun level low => ?levels, fun slot live level => ?live,
    fun slot inserted level => ?marked,
    fun slot sentinel => ?sentinels, fun slot inserted => ?heights, fun slot inserted => ?whole⟩
  case levels =>
    rw [inOrder.maxHeight] at low
    exact consistent.exists_levelShape inOrder.dated low
  case live =>
    rw [consistent.linked_iff (member slot live.1)]
    refine and_iff_left fun cleared => live.2 ?_
    refine consistent.lanes.marked slot (member slot live.1) level ?_
    rw [cleared, Link.isMarked_cleared]
  case marked => exact consistent.lanes.marked slot (member slot inserted) level
  case sentinels =>
    rcases isSentinel_iff.mp sentinel with rfl | rfl
    · exact ⟨consistent.roster.headAlive, consistent.lanes.headUnmarked⟩
    · refine ⟨consistent.roster.tailAlive, fun level => ?_⟩
      rw [consistent.lanes.tailNil level, Link.isMarked_nil]
  case heights =>
    rw [inOrder.maxHeight]
    exact ⟨consistent.roster.heightPos slot (member slot inserted),
      consistent.roster.heightLe slot (member slot inserted)⟩
  case whole => exact consistent.whole slot (member slot inserted)

/-- In every session of a legal run the queue has its shape, on as many levels as were asked for. -/
theorem run_shaped {options : Options} {history : History}
    {session : Session PriorityQueue Handle} (reached : Reached options history session) :
    session.subject.maxHeight = options.height ∧ Shaped history session.subject := by
  obtain ⟨line, free, inOrder⟩ := reached.inOrder
  exact ⟨inOrder.maxHeight, inOrder.shaped⟩

/-- A queue has its shape while a removal is half done. -/
theorem run_shaped_halfRemoved : ∃ history session handle,
    followFromStart smallOptions halfRemoved = some (history, session) ∧
      HalfDone history session handle ∧
      session.subject.maxHeight = smallOptions.height ∧ Shaped history session.subject := by
  obtain ⟨history, session, handle, followed, halfDone⟩ := exists_halfRemoved
  have shaped := run_shaped (Reached.of_steps followed)
  exact ⟨history, session, handle, followed, halfDone, shaped⟩

end PriorityQueue

end PooledContainers
