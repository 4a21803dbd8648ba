/-
What the counters of a list count. Each count on a node stands for a reference of a handle, for a
sentinel's place or for a removal that is not finished, and the nodes without any are the free ones.
Hence nothing on the list is free, and every slot is accounted for: as an entry that counts towards
the length, as free, or as a finished node that some handle still names.
-/

import PooledContainers.Proofs.SortedList.Runs

namespace PooledContainers

namespace SortedList

open Line Operation Pool

/-! ### What is counted -/

/-- The counts that a slot should have: one for each reference of a handle, one for a sentinel, and
one for a node that an insert linked and whose removal is not finished. -/
def countsDue (pending : Nat → Bool) (session : Session SortedList Handle) (slot : Nat) : Nat :=
  handlesOn session.handles slot + (if isSentinel slot then 1 else 0) +
    if pending slot then 1 else 0

/-- The nodes whose removal is finished but that some handle still names. -/
def finishedSlots (pending : Nat → Bool) (session : Session SortedList Handle) : List Nat :=
  (List.range session.subject.pool.size).filter fun slot =>
    !isSentinel slot && !pending slot && decide (0 < handlesOn session.handles slot)

theorem mem_finishedSlots {pending : Nat → Bool} {session : Session SortedList Handle}
    {slot : Nat} : slot ∈ finishedSlots pending session ↔ slot < session.subject.pool.size ∧
      isSentinel slot = false ∧ pending slot = false ∧ 0 < handlesOn session.handles slot := by
  unfold finishedSlots
  rw [List.mem_filter, List.mem_range]
  simp only [Bool.and_eq_true, Bool.not_eq_true', decide_eq_true_eq, and_assoc]

/-- The slot that an insert takes is free: no handle and no link that can be reached names it. -/
structure TakesFree (session : Session SortedList Handle) (free : List Nat) (slot : Nat) :
    Prop where
  first : session.subject.pool.freeHead.slot? = some slot
  isFree : slot ∈ free
  unheld : handlesOn session.handles slot = 0
  unreached : ¬ session.subject.pool.Met 0 slot

/-- What the counters, the free list and the figures of a list say. -/
structure Counted (pending : Nat → Bool) (session : Session SortedList Handle)
    (free : List Nat) : Prop where
  /-- The free list runs through these slots and no others. -/
  chain : session.subject.pool.FreeChain session.subject.pool.freeHead free
  distinct : free.Nodup
  counter : ∀ slot < session.subject.pool.size, session.subject.pool.counterOf slot =
    2 * countsDue pending session slot + if slot ∈ free then 1 else 0
  /-- A counter fits a word, and one count more may be taken. -/
  fits : ∀ slot < session.subject.pool.size, countsDue pending session slot < countLimit →
    session.subject.pool.counterOf slot + 2 < UInt64.size
  free_iff : ∀ slot < session.subject.pool.size,
    slot ∈ free ↔ countsDue pending session slot = 0
  /-- Nothing that can be reached is free. -/
  reached : ∀ slot, session.subject.pool.Met 0 slot → slot ∉ free
  /-- What can be reached between the sentinels has a removal to come, -/
  linked : ∀ slot, session.subject.pool.Met 0 slot → isSentinel slot = true ∨ pending slot = true
  /-- and what has a removal to come can be reached or was taken off the list. -/
  unfinished : ∀ slot, pending slot = true →
    session.subject.pool.Met 0 slot ∨ session.subject.pool.linkOf slot 0 = Link.cleared
  /-- An insert takes a free slot. -/
  taken : ∀ key payload after,
    take (.insert key payload) session = .ok (.insertion (.ok .inserted), after) →
      ∃ slot, TakesFree session free slot ∧ Live after.subject.pool slot ∧
        keyOf after.subject.pool slot = key
  available : session.subject.available = .ok free.length
  /-- The length counts the entries linked whose removal is not finished. -/
  length : session.subject.length = (pendingBelow pending session.subject.pool.size).length
  capacity : free.length + session.subject.length + (finishedSlots pending session).length =
    session.subject.capacity.toNat
  /-- Nothing is left behind once all handles are given up, and then the length is that of the live
  entries if every mark was followed by a completed removal. -/
  settled : session.handles.handles = [] →
    free.length + session.subject.length = session.subject.capacity.toNat ∧
      ((∀ slot, pending slot = true → ¬ Marked session.subject.pool slot) →
        session.subject.length = (liveSlots session.subject.pool).length)

/-! ### Every slot -/

namespace Consistent

variable {line free : List Nat} {pending : Nat → Bool} {held : Nat → Nat} {pool : Pool 1 Entry}

/-- What can be reached is the line with the sentinels. -/
theorem met_iff (consistent : Consistent line free [] pending held pool) (slot : Nat) :
    pool.Met 0 slot ↔ slot ∈ spine line := by
  have strung := consistent.strung
  refine ⟨strung.threaded.mem_spine_of_met (next?_of_nil strung.tailNil), fun member => ?_⟩
  exact Met.head.of_isChain (strung.threaded.isChain strung.distinct strung.linked) slot member

theorem isSentinel_eq_false_of_pending (consistent : Consistent line free [] pending held pool)
    {slot : Nat} (isPending : pending slot = true) : isSentinel slot = false := by
  rcases consistent.pendingKnown slot isPending with member | isCleared
  · exact consistent.isSentinel_eq_false member
  · refine Bool.eq_false_iff.mpr fun sentinel => ?_
    rcases isSentinel_iff.mp sentinel with rfl | rfl
    · exact consistent.not_mem_of_cleared isCleared List.mem_cons_self
    · exact Link.cleared_ne_nil (isCleared.symm.trans consistent.strung.tailNil)

/-- Free is what nobody holds and what has no place. -/
theorem mem_free_iff_idle (consistent : Consistent line free [] pending held pool) {slot : Nat} :
    slot ∈ free ↔
      slot < pool.size ∧ isSentinel slot = false ∧ pending slot = false ∧ held slot = 0 := by
  constructor
  · intro isFree
    have inside := consistent.accounted.inside slot isFree
    obtain ⟨unheld, noPlace⟩ := (consistent.mem_free_iff inside).mp isFree
    obtain ⟨inner, notPending⟩ := of_placeCount_eq_zero noPlace
    exact ⟨inside, inner, notPending, unheld⟩
  · rintro ⟨inside, inner, notPending, unheld⟩
    refine (consistent.mem_free_iff inside).mpr ⟨unheld, ?_⟩
    unfold placeCount
    rw [inner, notPending]
    rfl

end Consistent

namespace InOrder

variable {capacity : UInt64} {pending : Nat → Bool} {session : Session SortedList Handle}
  {line free : List Nat}

section Parts

variable (consistent : Consistent line free [] pending (handlesOn session.handles)
  session.subject.pool)

include consistent

/-- No slot is of two kinds at once: a sentinel's, free, pending, or finished and still held. -/
theorem nodup_parts : (([headSlot, tailSlot] ++ free) ++
    (pendingBelow pending session.subject.pool.size ++ finishedSlots pending session)).Nodup := by
  refine List.nodup_append'.mpr ⟨List.nodup_append'.mpr ⟨by decide,
    consistent.accounted.distinct, fun slot sentinel isFree => ?_⟩,
    List.nodup_append'.mpr ⟨nodup_pendingBelow _ _, List.nodup_range.filter _,
      fun slot isPending isFinished => ?_⟩, fun slot front back => ?_⟩
  · have inner := (consistent.mem_free_iff_idle.mp isFree).2.1
    simp only [List.mem_cons, List.not_mem_nil, or_false] at sentinel
    exact absurd ((isSentinel_iff.mpr sentinel).symm.trans inner) (by simp)
  · have none := (mem_finishedSlots.mp isFinished).2.2.1
    exact absurd (none.symm.trans (mem_pendingBelow.mp isPending).2) (by simp)
  · have inUse : isSentinel slot = false ∧
        (pending slot = true ∨ 0 < handlesOn session.handles slot) := by
      rcases List.mem_append.mp back with isPending | isFinished
      · have pendingSlot := (mem_pendingBelow.mp isPending).2
        exact ⟨consistent.isSentinel_eq_false_of_pending pendingSlot, Or.inl pendingSlot⟩
      · obtain ⟨-, inner, -, isHeld⟩ := mem_finishedSlots.mp isFinished
        exact ⟨inner, Or.inr isHeld⟩
    rcases List.mem_append.mp front with sentinel | isFree
    · simp only [List.mem_cons, List.not_mem_nil, or_false] at sentinel
      exact absurd ((isSentinel_iff.mpr sentinel).symm.trans inUse.1) (by simp)
    · obtain ⟨-, -, notPending, unheld⟩ := consistent.mem_free_iff_idle.mp isFree
      rcases inUse.2 with isPending | isHeld
      · exact absurd (notPending.symm.trans isPending) (by simp)
      · omega

/-- Every slot is that of a sentinel, free, pending, or finished and still held. -/
theorem length_parts : free.length + (pendingBelow pending session.subject.pool.size).length +
    (finishedSlots pending session).length + sentinelCount = session.subject.pool.size := by
  have isPerm : (([headSlot, tailSlot] ++ free) ++ (pendingBelow pending session.subject.pool.size
      ++ finishedSlots pending session)).Perm (List.range session.subject.pool.size) := by
    refine (List.perm_ext_iff_of_nodup (nodup_parts consistent) List.nodup_range).mpr
      fun slot => ?_
    rw [List.mem_append, List.mem_append, List.mem_append, mem_pendingBelow, mem_finishedSlots,
      consistent.mem_free_iff_idle, List.mem_range]
    simp only [List.mem_cons, List.not_mem_nil, or_false]
    rw [← isSentinel_iff]
    constructor
    · rintro ((sentinel | isFree) | (isPending | isFinished))
      · rcases isSentinel_iff.mp sentinel with rfl | rfl
        · exact consistent.inside (head_mem_spine line)
        · exact consistent.inside (tail_mem_spine line)
      · exact isFree.1
      · exact isPending.1
      · exact isFinished.1
    · intro inside
      by_cases sentinel : isSentinel slot = true
      · exact Or.inl (Or.inl sentinel)
      · have inner := Bool.eq_false_iff.mpr sentinel
        by_cases isPending : pending slot = true
        · exact Or.inr (Or.inl ⟨inside, isPending⟩)
        · have notPending := Bool.eq_false_iff.mpr isPending
          rcases Nat.eq_zero_or_pos (handlesOn session.handles slot) with unheld | isHeld
          · exact Or.inl (Or.inr ⟨inside, inner, notPending, unheld⟩)
          · exact Or.inr (Or.inr ⟨inside, inner, notPending, isHeld⟩)
  have counted := isPerm.length_eq
  simp only [List.length_append, List.length_range, List.length_cons, List.length_nil] at counted
  unfold sentinelCount
  omega

end Parts

/-- If no pending node is marked, the pending nodes are the live ones. -/
theorem length_pending (consistent : Consistent line free [] pending (handlesOn session.handles)
    session.subject.pool)
    (finished : ∀ slot, pending slot = true → ¬ Marked session.subject.pool slot) :
    (pendingBelow pending session.subject.pool.size).length =
      (liveSlots session.subject.pool).length := by
  refine List.Perm.length_eq ((List.perm_ext_iff_of_nodup (nodup_pendingBelow _ _)
    (List.nodup_range.filter _)).mpr fun slot => ?_)
  rw [mem_pendingBelow]
  refine Iff.trans ?_ (mem_liveSlots.trans (consistent.live_iff slot)).symm
  constructor
  · rintro ⟨-, isPending⟩
    exact ⟨isPending, finished slot isPending⟩
  · rintro ⟨isPending, unmarked⟩
    exact ⟨((consistent.live_iff slot).mpr ⟨isPending, unmarked⟩).2.1, isPending⟩

/-! ### The counts of a run -/

theorem counted (inOrder : InOrder capacity pending session) :
    ∃ free, Counted pending session free := by
  obtain ⟨line, free, consistent⟩ := inOrder.consistent
  have accounted := consistent.accounted
  have due : ∀ slot, countsDue pending session slot =
      handlesOn session.handles slot + placeCount pending slot := by
    intro slot
    unfold countsDue placeCount
    omega
  have noBack : ∀ slot, session.subject.pool.backCount slot = 0 :=
    backCount_eq_zero consistent.bare
  have reached : ∀ slot, session.subject.pool.Met 0 slot → slot ∉ free := fun slot met =>
    consistent.occupied slot ((consistent.met_iff slot).mp met)
  have length := inOrder.length_eq
  have whole := length_parts consistent
  have size := inOrder.size
  have capacity := inOrder.capacity
  have counter : ∀ slot < session.subject.pool.size, session.subject.pool.counterOf slot =
      2 * countsDue pending session slot + if slot ∈ free then 1 else 0 := by
    intro slot inside
    rw [accounted.counter slot inside, noBack, due]
    rfl
  refine ⟨free, accounted.chain, accounted.distinct, counter,
    fun slot inside => counter_fits (counter slot inside), fun slot inside => ?free_iff, reached,
    fun slot met => ?linked, fun slot isPending => ?unfinished,
    fun key payload after taken => ?taken, available_eq consistent, length, ?capacity,
    fun released => ?settled⟩
  case free_iff =>
    rw [accounted.free_iff slot inside, noBack, due]
    rfl
  case linked =>
    rcases mem_spine.mp ((consistent.met_iff slot).mp met) with rfl | member | rfl
    · exact Or.inl (isSentinel_iff.mpr (Or.inl rfl))
    · exact Or.inr (consistent.linkedPending slot member)
    · exact Or.inl (isSentinel_iff.mpr (Or.inr rfl))
  case unfinished =>
    refine (consistent.pendingKnown slot isPending).imp_left fun member => ?_
    exact (consistent.met_iff slot).mpr (mem_spine_of_mem member)
  case taken =>
    obtain ⟨slot, first, live, same⟩ := ((inOrder.insert_ends key payload).of_ran taken).taken rfl
    have isFree := consistent.accounted.mem_of_first first
    exact ⟨slot, ⟨first, isFree, (consistent.mem_free_iff_idle.mp isFree).2.2.2,
      fun met => reached slot met isFree⟩, live, same⟩
  case capacity =>
    rw [capacity, length]
    omega
  case settled =>
    have unheld : ∀ slot, handlesOn session.handles slot = 0 := fun _ =>
      HandleTable.total_of_nil _ released
    have noneLeft : (finishedSlots pending session).length = 0 := by
      rw [List.length_eq_zero_iff, List.eq_nil_iff_forall_not_mem]
      intro slot finished
      have isHeld := (mem_finishedSlots.mp finished).2.2.2
      rw [unheld slot] at isHeld
      exact Nat.lt_irrefl _ isHeld
    refine ⟨?_, fun finished => length.trans (length_pending consistent finished)⟩
    rw [capacity, length]
    omega

end InOrder

/-- In every session of a run the counters, the free list and the figures of the list agree with the
handles and the removals that are not finished. -/
theorem counts_balance {capacity : UInt64} {pending : Nat → Bool}
    {session : Session SortedList Handle} (reached : Reached capacity pending session) :
    session.subject.capacity = capacity ∧ ∃ free, Counted pending session free :=
  ⟨reached.inOrder.capacity, reached.inOrder.counted⟩

/-- The counts balance while a removal is half done. -/
theorem counts_balance_halfRemoved : ∃ pending session handle,
    followFromStart 3 halfRemoved = some (pending, session) ∧ HalfDone pending session handle ∧
      session.subject.capacity = 3 ∧ ∃ free, Counted pending session free := by
  obtain ⟨pending, session, handle, followed, halfDone⟩ := exists_halfRemoved
  have balance := counts_balance (Reached.of_steps followed)
  exact ⟨pending, session, handle, followed, halfDone, balance⟩

end SortedList

end PooledContainers
