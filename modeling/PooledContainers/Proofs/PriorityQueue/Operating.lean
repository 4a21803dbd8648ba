/-
The whole operations of a queue, taken by a session. An insert replaces a payload or links the first
free node, the removal of the smallest entry commits the first live node and finishes it, and the
others only look.
-/

import PooledContainers.Proofs.PriorityQueue.Handling

namespace PooledContainers

namespace PriorityQueue

open Holdings Line Operation Pool Session

variable {options : Options} {history : History} {session : Session PriorityQueue Handle}
  {line free : List Nat}

theorem drawHeight_bounds {maxHeight : Nat} (coins : Nat) (positive : 1 ≤ maxHeight) :
    1 ≤ drawHeight maxHeight coins ∧ drawHeight maxHeight coins ≤ maxHeight := by
  unfold drawHeight
  omega

namespace InOrder

theorem available_eq (inOrder : InOrder options history session line free) :
    session.subject.available = .ok free.length :=
  Pool.available_eq (by decide) inOrder.consistent.accounted.toBalanced

/-! ### Insert -/

/-- What an insert comes to. -/
structure InsertDone (options : Options) (history : History)
    (session : Session PriorityQueue Handle) (key payload : UInt64) (coins : Nat)
    (answer : Answer) (after : Session PriorityQueue Handle) : Prop where
  inOrder : ∃ line free,
    InOrder options (history.next session (.insert key payload coins) answer) after line free
  means : InsertMeans session answer after options.capacity.toNat key payload
  notRefused : ∀ reason, answer ≠ .refused reason
  remembers : Remembers session.subject.pool after.subject.pool
  /-- No node that was in the queue is used anew. -/
  kept : ∀ slot, Inserted session.subject.pool slot →
    keyOf after.subject.pool slot = keyOf session.subject.pool slot
  /-- A new entry takes the first free slot. -/
  taken : answer = .insertion (.ok .inserted) → ∃ slot,
    session.subject.pool.freeHead.slot? = some slot ∧ ¬ Inserted session.subject.pool slot ∧
      Live after.subject.pool slot ∧ keyOf after.subject.pool slot = key

theorem next_insert {slot : Nat} (first : session.subject.pool.freeHead.slot? = some slot)
    (key payload : UInt64) (coins : Nat) :
    history.next session (.insert key payload coins) (.insertion (.ok .inserted)) =
      history.inserted slot := by
  simp only [History.next, first]

/-- A misaligned payload is refused. -/
theorem insert_misaligned (inOrder : InOrder options history session line free)
    {key payload : UInt64} {coins : Nat} (misaligned : payload % alignment ≠ 0) :
    InsertDone options history session key payload coins
      (.insertion (.error (.misaligned payload))) session where
  inOrder := ⟨line, free, inOrder⟩
  means := ⟨fun _ => ⟨rfl, rfl⟩, fun aligned => absurd aligned misaligned,
    fun aligned => absurd aligned misaligned, fun aligned => absurd aligned misaligned⟩
  notRefused := nofun
  remembers := Remembers.refl _
  kept _ _ := rfl
  taken := nofun

/-- Without a free node nothing is inserted. -/
theorem insert_full (inOrder : InOrder options history session line []) (key : UInt64)
    {payload : UInt64} (coins : Nat) (aligned : payload % alignment = 0) :
    InsertDone options history session key payload coins
      (.insertion (.error (.full options.capacity.toNat))) session where
  inOrder := ⟨line, [], inOrder⟩
  means := ⟨fun misaligned => absurd aligned misaligned, fun _ _ => ⟨rfl, rfl⟩,
    fun _ some => absurd inOrder.available_eq some, fun _ some => absurd inOrder.available_eq some⟩
  notRefused := nofun
  remembers := Remembers.refl _
  kept _ _ := rfl
  taken := nofun

section Placing

variable {slot : Nat} {rest : List Nat} {key payload : UInt64} {coins height : Nat}
  {taken later : Pool maxLevels Entry}

theorem available_ne_zero (inOrder : InOrder options history session line (slot :: rest)) :
    session.subject.available ≠ .ok 0 := by
  rw [inOrder.available_eq]
  intro none
  exact absurd (Except.ok.inj none) (by simp)

/-- The first free slot is the one that an insert takes. -/
theorem first_free (inOrder : InOrder options history session line (slot :: rest)) :
    session.subject.pool.freeHead.slot? = some slot ∧ slot ∉ spine line ∧
      handlesOn session.handles slot = 0 := by
  have accounted := inOrder.consistent.accounted
  have inside := accounted.inside slot List.mem_cons_self
  have none := (accounted.free_iff slot inside).mp List.mem_cons_self
  exact ⟨accounted.freeHead_slot?,
    fun member => inOrder.consistent.occupied slot member List.mem_cons_self, by omega⟩

/-- The key was held, and its payload was replaced. -/
theorem insert_replaced (inOrder : InOrder options history session line (slot :: rest))
    (aligned : payload % alignment = 0) (clear : lowBit payload = false)
    (size : taken.size = session.subject.pool.size)
    (takenBody : ∀ other, taken.bodyOf other = session.subject.pool.bodyOf other)
    {freed : List Nat} {node : Nat} (member : node ∈ line) (alive : ¬ Deleted taken node)
    (same : keyOf taken node = key)
    (consistent : Consistent options.height (without line freed) (freed ++ rest) []
      history.pending (handlesOn session.handles) later)
    (laterSize : later.size = taken.size)
    (body : ∀ other ∈ line, later.bodyOf other =
      if other = node then { taken.bodyOf node with datum := ⟨payload⟩ } else taken.bodyOf other)
    (finished : ∀ other ∈ freed, history.pending other = false) :
    InsertDone options history session key payload coins
      (.insertion (.ok (.replaced (taken.bodyOf node).datum.payload)))
      { session with subject := { session.subject with pool := later } } := by
  have nodeLive : Live session.subject.pool node := (inOrder.consistent.live_iff node).mpr
    ⟨member, (deleted_congr (takenBody node)).not.mp alive⟩
  have sameKey : keyOf session.subject.pool node = key :=
    (keyOf_congr (takenBody node)).symm.trans same
  simp only [takenBody] at body
  have handled : Handled session.handles history.pending later := by
    refine inOrder.handled.mono (laterSize.trans size) fun owned inOwned wasDead isPending => ?_
    have ownedMember := inOrder.consistent.pendingInside owned isPending
    refine ⟨(deleted_congr ?_).mpr wasDead, isPending⟩
    rw [body owned ownedMember, if_neg]
    rintro rfl
    exact nodeLive.2 wasDead
  obtain ⟨stays, replaced, remembers⟩ := inOrder.replaced { session with
      subject := { session.subject with pool := later } } nodeLive clear consistent handled
    ⟨rfl, rfl, laterSize.trans size, (Int.add_zero _).symm⟩ body fun other otherMember inFreed =>
      inOrder.deleted_of_not_pending otherMember (finished other inFreed)
  rw [sameKey, clearLowBit_of_lowBit_eq_false clear] at replaced
  have found : contents session.subject key =
      some (session.subject.pool.bodyOf node).datum.payload :=
    sameKey ▸ contents_of_live inOrder.consistent nodeLive
  refine ⟨⟨_, _, stays⟩, ⟨fun misaligned => absurd aligned misaligned,
    fun _ none => absurd none inOrder.available_ne_zero, fun _ _ previous holds => ⟨?_, replaced⟩,
    fun _ _ absent => absurd (found.symm.trans absent) (by simp)⟩, nofun, remembers,
    fun other inserted => ?_, nofun⟩
  · rw [takenBody, Option.some.inj (found.symm.trans holds)]
  · show keyOf later other = _
    unfold keyOf
    rw [body other ((inOrder.consistent.inserted_iff other).mp inserted)]
    split
    next isNode => rw [isNode]
    next => rfl

/-- The key was not held, and a new node was linked. -/
theorem insert_inserted (inOrder : InOrder options history session line (slot :: rest))
    (aligned : payload % alignment = 0) (clear : lowBit payload = false)
    (size : taken.size = session.subject.pool.size)
    (takenBody : ∀ other, taken.bodyOf other = session.subject.pool.bodyOf other)
    {longer freed : List Nat} (alone : ∀ node ∈ line, keyOf taken node = key → Deleted taken node)
    (distinct : (spine longer).Nodup) (part : line.Sublist longer)
    (members : ∀ node, node ∈ longer ↔ node = slot ∨ node ∈ line)
    (order : ∀ node ∈ line, rank longer node < rank longer slot → keyOf taken node < key)
    (consistent : Consistent options.height (without longer freed) (freed ++ rest) []
      (await history.pending slot) (handlesOn session.handles) later)
    (laterSize : later.size = taken.size)
    (body : ∀ node ∈ line, later.bodyOf node = taken.bodyOf node)
    (slotBody : later.bodyOf slot = ⟨key, ⟨payload⟩, height, height⟩)
    (finished : ∀ node ∈ freed, await history.pending slot node = false) :
    InsertDone options history session key payload coins (.insertion (.ok .inserted))
      { session with subject := { session.subject with
          pool := later
          balance := session.subject.balance + 1 } } := by
  obtain ⟨first, new, -⟩ := inOrder.first_free
  have spared : ∀ node ∈ freed, history.pending node = false ∧ node ≠ slot := by
    intro node inFreed
    have none := finished node inFreed
    rwa [← Bool.not_eq_true, await_eq_true_iff, not_or, Bool.not_eq_true] at none
  simp only [takenBody] at body
  have handled : Handled session.handles (await history.pending slot) later := by
    refine inOrder.handled.mono (laterSize.trans size) fun owned inOwned wasDead isPending => ?_
    refine ⟨(deleted_congr (body owned (inOrder.consistent.pendingInside owned isPending))).mpr
      wasDead, await_eq_true_iff.mpr (Or.inl isPending)⟩
  obtain ⟨stays, added, remembers⟩ := inOrder.inserted { session with
      subject := { session.subject with
        pool := later
        balance := session.subject.balance + 1 } } new clear distinct part members
    (fun node member before => (keyOf_congr (takenBody node)) ▸ order node member before)
    consistent handled ⟨rfl, rfl, laterSize.trans size, rfl⟩ body slotBody
    (fun node member inFreed => inOrder.deleted_of_not_pending member (spared node inFreed).1)
    fun inFreed => (spared slot inFreed).2 rfl
  rw [clearLowBit_of_lowBit_eq_false clear] at added
  have absent : contents session.subject key = none := by
    refine contents_eq_none_iff.mpr fun node live same => ?_
    obtain ⟨member, alive⟩ := (inOrder.consistent.live_iff node).mp live
    exact alive ((deleted_congr (takenBody node)).mp
      (alone node member ((keyOf_congr (takenBody node)).trans same)))
  have slotKey : keyOf later slot = key := by
    unfold keyOf
    rw [slotBody]
  have slotNew : ¬ Inserted session.subject.pool slot := fun inserted =>
    new (mem_spine_of_mem ((inOrder.consistent.inserted_iff slot).mp inserted))
  refine ⟨?_, ⟨fun misaligned => absurd aligned misaligned,
    fun _ none => absurd none inOrder.available_ne_zero,
    fun _ _ previous holds => absurd (absent.symm.trans holds) (by simp),
    fun _ _ _ => ⟨rfl, added⟩⟩, nofun, remembers, fun node inserted => ?_,
    fun _ => ⟨slot, first, slotNew, ?_, slotKey⟩⟩
  · rw [next_insert first]
    exact ⟨_, _, stays⟩
  · exact keyOf_congr (body node ((inOrder.consistent.inserted_iff node).mp inserted))
  · refine (consistent.live_iff slot).mpr ⟨mem_without.mpr ⟨(members slot).mpr (Or.inl rfl),
      fun inFreed => (spared slot inFreed).2 rfl⟩, ?_⟩
    unfold Deleted
    rw [slotBody]
    exact Bool.eq_false_iff.mp clear

end Placing

theorem insert_ends (inOrder : InOrder options history session line free) (key payload : UInt64)
    (coins : Nat) : Ends (take (.insert key payload coins)) session
      (InsertDone options history session key payload coins) := by
  refine Ends.bind (act_ends ?_)
  unfold insertWithin
  cases word : alignedWord payload with
  | error error =>
    obtain ⟨misaligned, rfl⟩ := alignedWord_eq_error word
    exact Ends.pure (Ends.pure (inOrder.insert_misaligned misaligned))
  | ok kept =>
    obtain ⟨aligned, rfl, clear⟩ := alignedWord_eq_ok word
    have accounted := inOrder.consistent.accounted
    cases free with
    | nil =>
      refine Ends.bind (onNodes_ends (allocate_ends_of_nil accounted ?_))
      have full := inOrder.insert_full key coins aligned
      rw [← inOrder.capacity] at full
      exact Ends.reading rfl (Ends.pure full)
    | cons slot rest =>
      obtain ⟨first, new, unheld⟩ := inOrder.first_free
      refine Ends.bind (onNodes_ends (allocate_ends (by decide) accounted
        fun taken allocated => ?_))
      have consistent := inOrder.consistent.allocated allocated
      have heights := drawHeight_bounds coins inOrder.consistent.roster.heights.1
      have inside : slot < taken.size := by
        rw [allocated.size]
        exact accounted.inside slot List.mem_cons_self
      have notFree := (List.nodup_cons.mp accounted.distinct).1
      refine Ends.bind (onLevels_ends inOrder.maxHeight ((consistent.placeFresh_ends new notFree
        inside (fun level => by rw [allocated.links, if_pos rfl]) clear heights.1 heights.2
        unheld).imp fun previous later placed => ?_))
      cases placed with
      | replaced member alive same consistent size body finished =>
        exact Ends.pure (Ends.pure (inOrder.insert_replaced aligned clear allocated.size
          allocated.body member alive same consistent size body finished))
      | inserted alone distinct part members order consistent size body slotBody finished =>
        exact Ends.bind (Ends.updating (Ends.pure (Ends.pure (inOrder.insert_inserted aligned clear
          allocated.size allocated.body alone distinct part members order consistent size body
          slotBody finished))))

/-! ### Removal of the smallest entry -/

theorem next_extractMin (inOrder : InOrder options history session line free) {slot : Nat}
    (live : Live session.subject.pool slot) (payload : UInt64) :
    history.next session .extractMin (.entry (some (keyOf session.subject.pool slot, payload))) =
      history.finished slot := by
  simp only [History.next, inOrder.consistent.find?_liveSlots live]

/-- The first live node was committed and finished. -/
theorem extracted (inOrder : InOrder options history session line free) {first : Nat}
    {freed : List Nat} {pool : Pool maxLevels Entry} (member : first ∈ line)
    (alive : ¬ Deleted session.subject.pool first)
    (least : ∀ slot ∈ line, ¬ Deleted session.subject.pool slot →
      keyOf session.subject.pool first ≤ keyOf session.subject.pool slot)
    (consistent : Consistent options.height (without line freed) (freed ++ free) []
      (finish history.pending first) (handlesOn session.handles) pool)
    (size : pool.size = session.subject.pool.size)
    (body : ∀ slot,
      pool.bodyOf slot = (PriorityQueue.committed session.subject.pool first).bodyOf slot)
    (finished : ∀ slot ∈ freed, finish history.pending first slot = false) :
    (∃ line free, InOrder options (history.finished first) { session with
        subject := { session.subject with
          pool
          balance := session.subject.balance + -1 } } line free) ∧
      GivesUpLeast (contents session.subject)
        (contents { session.subject with
          pool
          balance := session.subject.balance + -1 })
        (some (keyOf session.subject.pool first,
          (session.subject.pool.bodyOf first).datum.payload)) ∧
      Remembers session.subject.pool pool := by
  have live := (inOrder.consistent.live_iff first).mpr ⟨member, alive⟩
  have inside := inOrder.consistent.inside member
  have handled : Handled session.handles (finish history.pending first) pool := by
    refine inOrder.handled.mono size fun slot _ wasDead isPending => ⟨?_, ?_⟩
    · exact (deleted_congr (body slot)).mpr ((deleted_committed_iff inside slot).mpr
        (Or.inr wasDead))
    · unfold finish
      rw [isPending, Bool.true_and, decide_eq_true_eq]
      rintro rfl
      exact alive wasDead
  obtain ⟨stays, erased, remembers⟩ := inOrder.erased { session with
      subject := { session.subject with
        pool
        balance := session.subject.balance + -1 } } live consistent handled
    ⟨rfl, rfl, size, rfl⟩ body fun slot slotMember inFreed => by
      by_cases isFirst : slot = first
      · exact Or.inl isFirst
      · refine Or.inr (inOrder.deleted_of_not_pending slotMember ?_)
        have none := finished slot inFreed
        unfold finish at none
        rwa [decide_eq_true isFirst, Bool.and_true] at none
  refine ⟨⟨_, _, stays⟩, GivesUpLeast.of_live inOrder.consistent.distinct_live
    (mem_liveSlots.mpr live) (fun slot slotLive => ?_) erased, remembers⟩
  obtain ⟨slotMember, slotAlive⟩ :=
    (inOrder.consistent.live_iff slot).mp (mem_liveSlots.mp slotLive)
  exact least slot slotMember slotAlive

theorem extractMin_ends (inOrder : InOrder options history session line free) :
    Ends (take .extractMin) session fun answer after =>
      (∃ line free, InOrder options (history.next session .extractMin answer) after line free) ∧
        (∃ found, answer = .entry found ∧
          GivesUpLeast (contents session.subject) (contents after.subject) found) ∧
        Remembers session.subject.pool after.subject.pool ∧
        ∀ reason, answer ≠ .refused reason := by
  refine Ends.bind (act_ends ?_)
  unfold extractMinWithin
  refine Ends.bind (onLevels_ends inOrder.maxHeight ((inOrder.consistent.commitMin_ends).imp
    fun found middle committed => ?_))
  cases committed with
  | none dead consistent size body =>
    have whole : without line [] = line := by simp [without]
    rw [← whole] at consistent
    obtain ⟨stays, same, remembers⟩ := inOrder.unaltered { session with
        subject := { session.subject with pool := middle } } consistent
      (inOrder.handled.mono size fun slot _ wasDead isPending =>
        ⟨(deleted_congr (body slot)).mpr wasDead, isPending⟩)
      ⟨rfl, rfl, size, (Int.add_zero _).symm⟩ body fun slot _ inNone => absurd inNone (by simp)
    refine Ends.pure (Ends.pure ⟨⟨_, _, stays⟩, ⟨_, rfl, GivesUpLeast.of_none_live
      (fun slot slotLive => ?_) same⟩, remembers, fun _ => Answer.noConfusion⟩)
    obtain ⟨slotMember, slotAlive⟩ :=
      (inOrder.consistent.live_iff slot).mp (mem_liveSlots.mp slotLive)
    exact slotAlive (dead slot slotMember)
  | @some first _ member alive least consistent size body =>
    have live := (inOrder.consistent.live_iff first).mpr ⟨member, alive⟩
    have inside := inOrder.consistent.inside member
    have firstBody := body first
    rw [bodyOf_committed inside, if_pos rfl] at firstBody
    have dead : Deleted middle first :=
      (deleted_congr (body first)).mpr ((deleted_committed_iff inside first).mpr (Or.inl rfl))
    refine Ends.bind (Ends.updating (Ends.bind (onNodes_ends (bodyAt_ends (by
      show first < middle.size
      rwa [size]) ?_))))
    refine Ends.bind (onLevels_ends inOrder.maxHeight ((consistent.completeRemoval_ends
      (inOrder.pending_of_live live) dead).imp fun _ pool thinned => Ends.pure (Ends.pure ?_)))
    obtain ⟨freed, thinned⟩ := thinned
    obtain ⟨stays, means, remembers⟩ := inOrder.extracted member alive least thinned.consistent
      (thinned.size.trans size) (fun slot => (thinned.body slot).trans (body slot)) thinned.finished
    have shown : entryOf middle first = entryOf session.subject.pool first := by
      unfold entryOf keyOf
      rw [firstBody]
      exact congrArg (Prod.mk _) (Datum.payload_delete _)
    show (∃ line free, InOrder options (history.next session .extractMin
      (.entry (some (entryOf middle first)))) _ line free) ∧
        (∃ found, Answer.entry (some (entryOf middle first)) = .entry found ∧
          GivesUpLeast _ _ found) ∧ _
    rw [shown]
    show (∃ line free, InOrder options (history.next session .extractMin
      (.entry (some (keyOf session.subject.pool first, _)))) _ line free) ∧ _
    rw [inOrder.next_extractMin live]
    exact ⟨stays, ⟨_, rfl, means⟩, remembers, fun _ => Answer.noConfusion⟩

/-! ### Looking at a queue -/

theorem entries_ends (inOrder : InOrder options history session line free) :
    Ends (take .entries) session fun answer after =>
      (∃ line free, InOrder options history after line free) ∧
        (contents after.subject = contents session.subject ∧
          ∃ all, answer = .entries all ∧ Enumerates (contents session.subject) all) ∧
        Remembers session.subject.pool after.subject.pool ∧
        ∀ reason, answer ≠ .refused reason := by
  refine Ends.bind (act_ends (onLevels_ends inOrder.maxHeight
    (inOrder.consistent.allEntries_ends.imp fun all pool listed => Ends.pure ?_)))
  obtain ⟨holds, ascending, members⟩ := listed
  obtain ⟨stays, same, remembers⟩ := inOrder.walked holds
  refine ⟨⟨line, free, stays⟩, ⟨same, all, rfl, ascending, fun key payload => ?_⟩, remembers,
    nofun⟩
  rw [members, contents_eq_some_iff inOrder.consistent]
  refine exists_congr fun slot => ?_
  rw [inOrder.consistent.live_iff, and_assoc]

theorem figures_ends (inOrder : InOrder options history session line free) :
    Ends (take .figures) session fun answer after =>
      FiguresMean session answer after options ∧ ∀ reason, answer ≠ .refused reason := by
  have shown : figures session.subject = .ok ⟨session.subject.length, session.subject.isEmpty,
      session.subject.capacity, free.length, session.subject.maxHeight⟩ := by
    unfold figures
    rw [inOrder.available_eq]
    rfl
  have length : session.subject.length = (liveSlots session.subject.pool).length := by
    unfold PriorityQueue.length
    rw [inOrder.balance, Int.toNat_natCast]
  refine Ends.bind (reading_ends shown (Ends.pure ⟨⟨rfl, _,
    (liveSlots session.subject.pool).map (keyOf session.subject.pool), rfl, ?_, fun key => ?_, ?_,
    ?_, inOrder.capacity, inOrder.available_eq, inOrder.maxHeight⟩, nofun⟩))
  · exact inOrder.consistent.distinct_live.nodup_keys (nodup_liveSlots _)
  · exact Holdings.mem_keys_iff _
  · rw [List.length_map]
    exact length
  · show (session.subject.length == 0) = _
    rw [length]
    cases liveSlots session.subject.pool <;> rfl

/-- Something stands first at level 0, if only the tail. -/
theorem exists_first (inOrder : InOrder options history session line free) :
    ∃ first, session.subject.pool.next? 0 headSlot = some first ∧
      (first = tailSlot ∨ first ∈ line) := by
  have threaded := inOrder.consistent.lanes.threaded 0 inOrder.consistent.roster.heights.1
  obtain ⟨first, leads⟩ := threaded.head.exists_next?
  exact ⟨first, leads, (threaded.adjacent headSlot List.mem_cons_self first leads).ends.imp_right
    fun inner => inner.1⟩

section First

variable {first : Nat} (leads : session.subject.pool.next? 0 headSlot = some first)

include leads

/-- Whatever stands first at level 0 stands in front of all live nodes. -/
theorem first_le_of_live (inOrder : InOrder options history session line free) {slot : Nat}
    (live : Live session.subject.pool slot) :
    slot ∈ line ∧ rank line first ≤ rank line slot := by
  have consistent := inOrder.consistent
  have adjacent := (consistent.lanes.threaded 0 consistent.roster.heights.1).adjacent headSlot
    List.mem_cons_self first leads
  obtain ⟨member, alive⟩ := (consistent.live_iff slot).mp live
  have linked := consistent.holds.linked_of_alive consistent.lanes consistent.whole member alive
  refine ⟨member, adjacent.between slot member linked ?_⟩
  rw [rank_head]
  exact rank_pos consistent.roster.distinct member

/-- Nothing is live if the tail stands first. -/
theorem not_live_of_tail_first (inOrder : InOrder options history session line free)
    (isTail : first = tailSlot) (slot : Nat) : ¬ Live session.subject.pool slot := by
  intro live
  obtain ⟨member, after⟩ := inOrder.first_le_of_live leads live
  rw [isTail] at after
  exact Nat.not_lt_of_le after (rank_lt_rank_tail inOrder.consistent.roster.distinct
    (List.mem_cons_of_mem _ member))

/-- A live node behind the first one has a greater key, or is the first one itself. -/
theorem key_of_live (inOrder : InOrder options history session line free) (member : first ∈ line)
    {slot : Nat} (live : Live session.subject.pool slot) :
    slot = first ∨ keyOf session.subject.pool first < keyOf session.subject.pool slot := by
  obtain ⟨slotMember, after⟩ := inOrder.first_le_of_live leads live
  rcases Nat.eq_or_lt_of_le after with equal | before
  · exact Or.inl (rank_injective (mem_spine_of_mem member) equal).symm
  · exact Or.inr ((inOrder.consistent.roster.sorted first member slot slotMember
      before).resolve_right fun both => live.2 both.2)

/-- A look at a queue shows the entry of what stands first at level 0. -/
theorem peek_eq (inOrder : InOrder options history session line free)
    (ends : first = tailSlot ∨ first ∈ line) : peek session.subject =
      .ok (if first = tailSlot then none else some (entryOf session.subject.pool first)) := by
  have consistent := inOrder.consistent
  have headLink : session.subject.pool.link? headSlot 0 =
      some (session.subject.pool.linkOf headSlot 0) :=
    link?_eq_some (consistent.roster.inside headSlot (head_mem_spine line)) (by decide)
  have names : (session.subject.pool.linkOf headSlot 0).slot? = some first := leads
  unfold peek
  rw [headLink]
  dsimp only
  rw [names]
  show (if first = tailSlot then _ else _) = _
  by_cases isTail : first = tailSlot
  · rw [if_pos isTail, if_pos isTail]
  · rw [if_neg isTail, if_neg isTail,
      node?_eq_some (consistent.inside (ends.resolve_left isTail))]
    rfl

end First

theorem peek_ends (inOrder : InOrder options history session line free) :
    Ends (take .peek) session fun answer after =>
      PeekMeans session answer after ∧ ∀ reason, answer ≠ .refused reason := by
  have consistent := inOrder.consistent
  obtain ⟨first, leads, ends⟩ := inOrder.exists_first
  refine Ends.bind (reading_ends (inOrder.peek_eq leads ends) (Ends.pure
    ⟨⟨rfl, _, rfl, fun none key => ?_, fun key payload same => ?_⟩, nofun⟩))
  · by_cases isTail : first = tailSlot
    · exact contents_eq_none_iff.mpr fun slot live _ =>
        inOrder.not_live_of_tail_first leads isTail slot live
    · rw [if_neg isTail] at none
      exact absurd none (by simp)
  · by_cases isTail : first = tailSlot
    · rw [if_pos isTail] at same
      exact absurd same (by simp)
    · rw [if_neg isTail] at same
      obtain ⟨rfl, rfl⟩ := Prod.mk.inj (Option.some.inj same)
      have member := ends.resolve_left isTail
      refine ⟨fun other holds => ?_, fun present holds => ?_⟩
      · obtain ⟨payload, holds⟩ := Option.ne_none_iff_exists'.mp holds
        obtain ⟨slot, live, rfl, -⟩ := (contents_eq_some_iff consistent).mp holds
        rcases inOrder.key_of_live leads member live with rfl | less
        · exact UInt64.le_refl _
        · exact UInt64.le_of_lt less
      · obtain ⟨slot, live, sameKey, rfl⟩ := (contents_eq_some_iff consistent).mp holds
        rcases inOrder.key_of_live leads member live with rfl | less
        · rfl
        · exact absurd (sameKey ▸ less) (UInt64.lt_irrefl _)

/-! ### Any step -/

/-- What a step comes to: the session stays in order if hints lead towards the head, the answer and
what the queue holds then are as the step means, and nothing is forgotten of deleted nodes. -/
structure Moved (options : Options) (history : History) (session : Session PriorityQueue Handle)
    (step : Step) (answer : Answer) (after : Session PriorityQueue Handle) : Prop where
  inOrder : (answer = .flag true → leadsBack session step = true) →
    ∃ line free, InOrder options (history.next session step answer) after line free
  means : Meaning session answer after options step
  remembers : Remembers session.subject.pool after.subject.pool
  refused : ∀ reason, answer = .refused reason → after = session

/-- A step that leaves the session as it is. -/
theorem unmoved (inOrder : InOrder options history session line free) {step : Step}
    {answer : Answer} (next : history.next session step answer = history)
    (means : Meaning session answer session options step) :
    Moved options history session step answer session :=
  ⟨fun _ => next.symm ▸ ⟨line, free, inOrder⟩, means, Remembers.refl _, fun _ _ => rfl⟩

/-- A step that means no more than that the queue holds what it held. -/
theorem moved_of_quiet {step : Step} {answer : Answer} {after : Session PriorityQueue Handle}
    (quiet : Quiet options history session answer after)
    (next : history.next session step answer = history)
    (means : Meaning session answer after options step =
      (contents after.subject = contents session.subject)) :
    Moved options history session step answer after :=
  ⟨fun _ => next.symm ▸ quiet.inOrder, means.symm ▸ quiet.same, quiet.remembers, quiet.refused⟩

/-- Any step has an answer. -/
theorem take_ends (inOrder : InOrder options history session line free) (step : Step) :
    Ends (take step) session (Moved options history session step) := by
  unfold take
  cases step with
  | insert key payload coins =>
    exact (inOrder.insert_ends key payload coins).imp fun answer after done =>
      ⟨fun _ => done.inOrder, done.means, done.remembers, fun reason refused =>
        absurd refused (done.notRefused reason)⟩
  | extractMin =>
    exact inOrder.extractMin_ends.imp fun answer after done => ⟨fun _ => done.1, done.2.1,
      done.2.2.1, fun reason refused => absurd refused (done.2.2.2 reason)⟩
  | peek =>
    refine inOrder.peek_ends.imp fun answer after done => ?_
    obtain rfl := done.1.same
    exact inOrder.unmoved rfl done.1
  | entries =>
    exact inOrder.entries_ends.imp fun answer after done => ⟨fun _ => done.1, done.2.1,
      done.2.2.1, fun reason refused => absurd refused (done.2.2.2 reason)⟩
  | figures =>
    refine inOrder.figures_ends.imp fun answer after done => ?_
    obtain rfl := done.1.1
    exact inOrder.unmoved rfl done.1
  | describe => exact reading_ends rfl (inOrder.unmoved rfl rfl)
  | draw coins => exact reading_ends rfl (inOrder.unmoved rfl rfl)
  | levels =>
    obtain ⟨all, shown⟩ := inOrder.linkedLevels_ok
    exact Ends.bind (reading_ends shown (Ends.pure (inOrder.unmoved rfl rfl)))
  | hold name target =>
    exact (inOrder.takeHold_ends name target).imp fun _ _ done => moved_of_quiet done rfl rfl
  | release name =>
    exact (inOrder.release_ends name).imp fun _ _ done => moved_of_quiet done rfl rfl
  | inspect name =>
    refine withHandle_ends (fun _ => inOrder.unmoved rfl rfl) fun handle found => ?_
    refine (inOrder.takeInspect_ends found).imp fun answer after done => ?_
    obtain rfl := done
    exact inOrder.unmoved rfl rfl
  | commit name =>
    refine withHandle_ends (fun absent => inOrder.unmoved rfl (HandleMeans.of_none absent))
      fun handle found => ?_
    exact (inOrder.takeCommit_ends found).imp fun answer after done =>
      ⟨fun _ => done.1, (handleMeans_iff found).mpr done.2.1, done.2.2.1, done.2.2.2⟩
  | hint name predecessor =>
    refine withHandle_ends (fun _ => inOrder.unmoved rfl rfl) fun handle found => ?_
    refine withHandle_ends (fun _ => inOrder.unmoved rfl rfl) fun other foundOther => ?_
    exact (inOrder.takeHint_ends found foundOther).imp fun answer after done =>
      ⟨done.1, done.2.1, done.2.2.1, done.2.2.2⟩
  | markLinks name level =>
    unfold takeWithin
    refine Ends.imp (inOrder.takeAt_ends fun node member meets => ?_)
      fun _ _ done => moved_of_quiet done rfl rfl
    exact inOrder.markLinks_stage member meets
  | bypass name level =>
    unfold takeWithin
    refine Ends.imp (inOrder.takeAt_ends fun node member meets => ?_)
      fun _ _ done => moved_of_quiet done rfl rfl
    exact inOrder.bypass_stage member meets
  | help name level =>
    unfold takeWithin
    refine Ends.imp (inOrder.takeAt_ends fun node member meets => ?_)
      fun _ _ done => moved_of_quiet done rfl rfl
    exact inOrder.help_stage member meets
  | successor name level =>
    unfold takeWithin
    refine Ends.imp (inOrder.takeAt_ends fun node member meets => ?_)
      fun _ _ done => moved_of_quiet done rfl rfl
    exact inOrder.successor_stage member meets
  | seek name level key =>
    unfold takeWithin
    refine Ends.imp (inOrder.takeAt_ends fun node member meets => ?_)
      fun _ _ done => moved_of_quiet done rfl rfl
    exact inOrder.seek_stage key member meets
  | complete name =>
    refine withHandle_ends (fun absent => inOrder.unmoved rfl (HandleMeans.of_none absent))
      fun handle found => ?_
    exact (inOrder.takeComplete_ends found).imp fun answer after done =>
      ⟨fun _ => done.1, (handleMeans_iff found).mpr done.2.1, done.2.2.1, done.2.2.2⟩

end InOrder

end PriorityQueue

end PooledContainers
