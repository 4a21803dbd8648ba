/-
What the counters of a queue count. Each count on a node stands for a handle, for a reference back,
for a sentinel's place or for a removal that is not finished, and the nodes without any are the free
ones. Hence nothing that can be reached is free, and once all removals are finished and all handles
given up no deleted node is left.
-/

import PooledContainers.Proofs.PriorityQueue.Runs

namespace PooledContainers

open Line

namespace PriorityQueue

open Operation Pool

/-- The committed nodes that have not been reclaimed. -/
def committedSlots (pool : Pool maxLevels Entry) : List Nat :=
  (List.range pool.size).filter fun slot => decide (Inserted pool slot ∧ Deleted pool slot)

/-- The counts that a slot should have: one for each handle and each reference back, one for a
sentinel, and one for a node that an insert linked and whose removal is not finished. -/
def countsDue (history : History) (session : Session PriorityQueue Handle) (slot : Nat) : Nat :=
  handlesOn session.handles slot + session.subject.pool.backCount slot +
    (if isSentinel slot then 1 else 0) + if history.pending slot then 1 else 0

/-- The slot that an insert takes is free: no handle, no reference back and no link that can be
reached names it. -/
structure TakesFree (session : Session PriorityQueue Handle) (free : List Nat) (slot : Nat) :
    Prop where
  first : session.subject.pool.freeHead.slot? = some slot
  isFree : slot ∈ free
  unheld : handlesOn session.handles slot = 0
  unhinted : ∀ other < session.subject.pool.size, session.subject.pool.back? other ≠ some slot
  unreached : ∀ level, ¬ session.subject.pool.Met level slot

/-- What the counters, the free list and the figures of a queue say. -/
structure Counted (history : History) (session : Session PriorityQueue Handle)
    (free : List Nat) : Prop where
  /-- The free list runs through these slots and no others. -/
  chain : session.subject.pool.FreeChain session.subject.pool.freeHead free
  distinct : free.Nodup
  counter : ∀ slot < session.subject.pool.size, session.subject.pool.counterOf slot =
    2 * countsDue history session slot + if slot ∈ free then 1 else 0
  /-- A counter fits a word, and one count more may be taken. -/
  fits : ∀ slot < session.subject.pool.size, countsDue history session slot < countLimit →
    session.subject.pool.counterOf slot + 2 < UInt64.size
  free_iff : ∀ slot < session.subject.pool.size,
    slot ∈ free ↔ countsDue history session slot = 0
  /-- No link that can be reached names a free slot, -/
  reached : ∀ level slot, session.subject.pool.Met level slot → slot ∉ free
  /-- nor does a reference back of a node that is not free, while a free node has none. -/
  named : ∀ slot < session.subject.pool.size, ∀ target,
    session.subject.pool.back? slot = some target → slot ∉ free ∧ target ∉ free
  /-- What can be reached between the sentinels has a removal to come, -/
  linked : ∀ level slot, session.subject.pool.Met level slot →
    isSentinel slot = true ∨ history.pending slot = true
  /-- and what has a removal to come was inserted, and can be reached at each of its levels or was
  taken off there. -/
  unfinished : ∀ slot, history.pending slot = true → Inserted session.subject.pool slot ∧
    ∀ level < (session.subject.pool.bodyOf slot).height, session.subject.pool.Met level slot ∨
      session.subject.pool.linkOf slot level = Link.cleared
  /-- An insert takes a free slot and leaves all other nodes their keys. -/
  taken : ∀ key payload coins answer after,
    take (.insert key payload coins) session = .ok (answer, after) →
      (∀ slot, Inserted session.subject.pool slot →
        keyOf after.subject.pool slot = keyOf session.subject.pool slot) ∧
      (answer = .insertion (.ok .inserted) → ∃ slot, TakesFree session free slot ∧
        Live after.subject.pool slot ∧ keyOf after.subject.pool slot = key)
  available : session.subject.available = .ok free.length
  capacity : free.length + session.subject.length +
    (committedSlots session.subject.pool).length = session.subject.capacity.toNat
  /-- Nothing is left behind once all removals are finished and all handles given up. -/
  settled : (∀ slot ∈ committedSlots session.subject.pool, history.pending slot = false) →
    session.handles.handles = [] →
    free.length + session.subject.length = session.subject.capacity.toNat ∧
      ∀ level slot, session.subject.pool.Met level slot → ¬ Deleted session.subject.pool slot

theorem mem_committedSlots {pool : Pool maxLevels Entry} {slot : Nat} :
    slot ∈ committedSlots pool ↔ Inserted pool slot ∧ Deleted pool slot := by
  unfold committedSlots
  rw [List.mem_filter, List.mem_range, decide_eq_true_eq]
  exact and_iff_right_of_imp fun both => both.1.2.1

namespace Consistent

variable {maxHeight : Nat} {line free : List Nat} {pending : Nat → Bool} {held : Nat → Nat}
  {pool : Pool maxLevels Entry}

/-! ### How many nodes there are -/

/-- Every slot is that of a sentinel, of a node of the line or of a free node. -/
theorem length_add (consistent : Consistent maxHeight line free [] pending held pool) :
    line.length + free.length + sentinelCount = pool.size := by
  have distinct : (spine line ++ free).Nodup :=
    List.nodup_append'.mpr ⟨consistent.roster.distinct, consistent.accounted.distinct,
      fun slot inSpine inFree => consistent.occupied slot inSpine inFree⟩
  have permuted : (spine line ++ free).Perm (List.range pool.size) := by
    refine (List.perm_ext_iff_of_nodup distinct List.nodup_range).mpr fun slot => ?_
    rw [List.mem_append, List.mem_range]
    constructor
    · rintro (inSpine | inFree)
      · exact consistent.roster.inside slot inSpine
      · exact consistent.accounted.inside slot inFree
    · intro inside
      exact (consistent.covered slot inside).imp_right fun other =>
        other.resolve_left (by simp)
  have counted := permuted.length_eq
  rw [List.length_append, length_spine, List.length_range] at counted
  unfold sentinelCount
  omega

/-- The nodes of the line are live or committed. -/
theorem length_line (consistent : Consistent maxHeight line free [] pending held pool) :
    line.length = (liveSlots pool).length + (committedSlots pool).length := by
  have committedDistinct : (committedSlots pool).Nodup := List.nodup_range.filter _
  have distinct : (liveSlots pool ++ committedSlots pool).Nodup :=
    List.nodup_append'.mpr ⟨nodup_liveSlots pool, committedDistinct, fun slot live committed =>
      (mem_liveSlots.mp live).2 (mem_committedSlots.mp committed).2⟩
  have permuted : line.Perm (liveSlots pool ++ committedSlots pool) := by
    refine (List.perm_ext_iff_of_nodup (nodup_line consistent.roster.distinct) distinct).mpr
      fun slot => ?_
    rw [List.mem_append, mem_liveSlots, mem_committedSlots, ← consistent.inserted_iff]
    unfold Live
    rw [← and_or_left]
    exact (and_iff_left (Decidable.em _).symm).symm
  rw [permuted.length_eq, List.length_append]

/-- If no committed node is pending or held, none is left: the last one would be kept by nothing but
a reference back, and only a committed node further on could have it. -/
theorem not_deleted_of_settled (consistent : Consistent maxHeight line free [] pending held pool)
    (finished : ∀ slot ∈ line, Deleted pool slot → pending slot = false)
    (unheld : ∀ slot, held slot = 0) (steps : Nat) {slot : Nat} (member : slot ∈ line)
    (enough : line.length < steps + rank line slot) : ¬ Deleted pool slot := by
  induction steps generalizing slot with
  | zero =>
    have short := rank_le_length consistent.roster.distinct (List.mem_cons_of_mem headSlot member)
    omega
  | succ steps inductionHypothesis =>
    intro dead
    have inside := consistent.inside member
    have kept := (consistent.accounted.free_iff slot inside).not.mp
      (consistent.occupied slot (mem_spine_of_mem member))
    have noPlace : placeCount pending slot = 0 := by
      unfold placeCount
      rw [consistent.isSentinel_eq_false member, finished slot member dead]
      rfl
    rw [unheld slot, noPlace] at kept
    obtain ⟨other, otherInside, names⟩ := List.countP_pos_iff.mp
      (Nat.pos_of_ne_zero (show pool.backCount slot ≠ 0 by omega))
    rw [decide_eq_true_eq] at names
    have otherMember : other ∈ line := by
      by_contra outside
      rw [consistent.bare other outside] at names
      exact absurd names (by simp)
    rcases consistent.roster.back other otherMember slot names with isHead | ⟨-, smaller⟩
    · exact head_not_mem consistent.roster.distinct (isHead ▸ member)
    · have before : rank line slot < rank line other :=
        consistent.ground.rank_lt_of_key_lt member otherMember smaller
      have alive := inductionHypothesis otherMember (by omega)
      rw [consistent.roster.backAlive other otherMember alive] at names
      exact absurd names (by simp)

end Consistent

/-! ### The counts of a run -/

namespace InOrder

variable {options : Options} {history : History} {session : Session PriorityQueue Handle}
  {line free : List Nat}

/-- The slot that an insert takes is named by nothing. -/
theorem takesFree (inOrder : InOrder options history session line free) {slot : Nat}
    (first : session.subject.pool.freeHead.slot? = some slot) : TakesFree session free slot := by
  have accounted := inOrder.consistent.accounted
  have isFree := accounted.mem_of_first first
  have none := accounted.idle slot isFree
  exact ⟨first, isFree, by omega,
    fun other inside names => accounted.not_free_of_back inside names isFree,
    fun level met => inOrder.consistent.occupied slot (inOrder.consistent.mem_spine_of_met met)
      isFree⟩

/-- Once all removals are finished and all handles given up, all of the line is live. -/
theorem all_live (inOrder : InOrder options history session line free)
    (finished : ∀ slot ∈ committedSlots session.subject.pool, history.pending slot = false)
    (released : session.handles.handles = []) :
    ∀ slot ∈ line, ¬ Deleted session.subject.pool slot := by
  have consistent := inOrder.consistent
  intro slot member
  exact consistent.not_deleted_of_settled (fun other otherMember dead => finished other
    (mem_committedSlots.mpr ⟨(consistent.inserted_iff other).mpr otherMember, dead⟩))
    (fun _ => HandleTable.total_of_nil _ released) (line.length + 1) member
    (Nat.lt_add_right _ (Nat.lt_succ_self _))

theorem counted (inOrder : InOrder options history session line free) :
    Counted history session free := by
  have consistent := inOrder.consistent
  have accounted := consistent.accounted
  have due : ∀ slot, countsDue history session slot = handlesOn session.handles slot +
      placeCount history.pending slot + session.subject.pool.backCount slot := by
    intro slot
    unfold countsDue placeCount
    omega
  have length : session.subject.length = (liveSlots session.subject.pool).length := by
    unfold PriorityQueue.length
    rw [inOrder.balance, Int.toNat_natCast]
  have whole := consistent.length_add
  have parts := consistent.length_line
  have size := inOrder.size
  have capacity := inOrder.capacity
  have counter : ∀ slot < session.subject.pool.size, session.subject.pool.counterOf slot =
      2 * countsDue history session slot + if slot ∈ free then 1 else 0 := by
    intro slot inside
    rw [due]
    exact accounted.counter slot inside
  refine ⟨accounted.chain, accounted.distinct, counter,
    fun slot inside => counter_fits (counter slot inside), fun slot inside => ?free_iff,
    fun level slot met => consistent.occupied slot (consistent.mem_spine_of_met met),
    fun slot inside target names => ?named, fun level slot met => ?linked,
    fun slot isPending => ?unfinished, fun key payload coins answer after taken => ?taken,
    inOrder.available_eq, ?capacity, fun finished released => ?settled⟩
  case free_iff =>
    rw [due]
    exact accounted.free_iff slot inside
  case named =>
    refine ⟨fun isFree => ?_, accounted.not_free_of_back inside names⟩
    rw [accounted.bare slot isFree] at names
    exact absurd names (by simp)
  case linked =>
    rcases mem_spine.mp (consistent.mem_spine_of_met met) with rfl | member | rfl
    · exact Or.inl (isSentinel_iff.mpr (Or.inl rfl))
    · have linked := consistent.linked_of_met met member
      exact Or.inr (consistent.linkedPending slot member level linked)
    · exact Or.inl (isSentinel_iff.mpr (Or.inr rfl))
  case unfinished =>
    have member := consistent.pendingInside slot isPending
    refine ⟨(consistent.inserted_iff slot).mpr member, fun level reached => ?_⟩
    refine (em (session.subject.pool.linkOf slot level = Link.cleared)).symm.imp_left
      fun notCleared => ?_
    exact consistent.met_of_linked (List.mem_cons_of_mem headSlot member)
      ((consistent.linked_iff member level).mpr ⟨reached, notCleared⟩)
  case taken =>
    have done := (inOrder.insert_ends key payload coins).of_ran taken
    refine ⟨done.kept, fun answered => ?_⟩
    obtain ⟨slot, first, -, live, same⟩ := done.taken answered
    exact ⟨slot, inOrder.takesFree first, live, same⟩
  case capacity =>
    rw [capacity, length]
    omega
  case settled =>
    have alive := inOrder.all_live finished released
    have noneLeft : (committedSlots session.subject.pool).length = 0 := by
      rw [List.length_eq_zero_iff, List.eq_nil_iff_forall_not_mem]
      intro slot committed
      obtain ⟨inserted, dead⟩ := mem_committedSlots.mp committed
      exact alive slot ((consistent.inserted_iff slot).mp inserted) dead
    refine ⟨?_, fun level slot met => ?_⟩
    · rw [capacity, length]
      omega
    · rcases mem_spine.mp (consistent.mem_spine_of_met met) with rfl | member | rfl
      · exact consistent.roster.headAlive
      · exact alive slot member
      · exact consistent.roster.tailAlive

end InOrder

/-- In every session of a legal run the counters, the free list and the figures of the queue agree
with the handles, the references back and the removals that are not finished. -/
theorem counts_agree {options : Options} {history : History}
    {session : Session PriorityQueue Handle} (reached : Reached options history session) :
    session.subject.capacity = options.capacity ∧ ∃ free, Counted history session free := by
  obtain ⟨line, free, inOrder⟩ := reached.inOrder
  exact ⟨inOrder.capacity, free, inOrder.counted⟩

/-- The counts agree while a removal is half done. -/
theorem counts_agree_halfRemoved : ∃ history session handle,
    followFromStart smallOptions halfRemoved = some (history, session) ∧
      HalfDone history session handle ∧ session.subject.capacity = smallOptions.capacity ∧
      ∃ free, Counted history session free := by
  obtain ⟨history, session, handle, followed, halfDone⟩ := exists_halfRemoved
  have agree := counts_agree (Reached.of_steps followed)
  exact ⟨history, session, handle, followed, halfDone, agree⟩

end PriorityQueue

end PooledContainers
