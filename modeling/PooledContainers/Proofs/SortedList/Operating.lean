/-
The steps of a session with a list. Each of them has an answer and leaves the session in order, and
what it comes to is as it means: the whole operations as well as the stages of a removal, taken in
any order by any number of handles.
-/

import PooledContainers.Proofs.SortedList.Entries
import PooledContainers.Proofs.SortedList.InOrder

namespace PooledContainers

namespace SortedList

open Holdings Line Operation Pool Session

variable {capacity : UInt64} {pending : Nat → Bool} {session : Session SortedList Handle}

/-! ### What a step comes to -/

/-- What a step comes to: the session stays in order, and the answer and what the list holds then
are as the step means. What is off the list stays off it until its removal is finished. -/
structure Moved (capacity : UInt64) (pending : Nat → Bool) (session : Session SortedList Handle)
    (step : Step) (answer : Answer) (after : Session SortedList Handle) : Prop where
  inOrder : InOrder capacity (nextPending pending session step answer) after
  means : Meaning session answer after capacity step
  refused : ∀ reason, answer = .refused reason → after = session
  off : ∀ slot, pending slot = true → nextPending pending session step answer slot = true →
    session.subject.pool.linkOf slot 0 = Link.cleared →
      after.subject.pool.linkOf slot 0 = Link.cleared

namespace InOrder

variable {step : Step} {answer : Answer} {list : SortedList} {handles : HandleTable Handle}

/-- A step may leave all as it was. -/
theorem unmoved (inOrder : InOrder capacity pending session)
    (next : nextPending pending session step answer = pending)
    (means : Meaning session answer session capacity step) :
    Moved capacity pending session step answer session :=
  ⟨next.symm ▸ inOrder, means, fun _ _ => rfl, fun _ _ _ off => off⟩

/-- A step may leave what is pending and what is held as it was. -/
theorem moved_of_unaltered (inOrder : InOrder capacity pending session)
    (handled : Handled handles pending session.subject.pool)
    (settled : Settled pending (handlesOn handles) 0 session.subject list)
    (next : nextPending pending session step answer = pending)
    (notRefused : ∀ reason, answer ≠ .refused reason)
    (means : contents list = contents session.subject →
      Meaning session answer ⟨list, handles⟩ capacity step) :
    Moved capacity pending session step answer ⟨list, handles⟩ := by
  obtain ⟨stays, same⟩ := inOrder.unaltered handled settled
  exact ⟨next.symm ▸ stays, means same, fun reason refused => absurd refused (notRefused reason),
    fun slot isPending _ => settled.alike.cleared slot isPending⟩

/-- A step may remove a live node. -/
theorem moved_of_removed (inOrder : InOrder capacity pending session) {node : Nat}
    (live : Live session.subject.pool node)
    (settled : Settled (finish pending node) (handlesOn session.handles) (-1) session.subject list)
    (next : nextPending pending session step answer = finish pending node)
    (notRefused : ∀ reason, answer ≠ .refused reason)
    (means : contents list = Function.update (contents session.subject)
        (keyOf session.subject.pool node) none →
      Meaning session answer ⟨list, session.handles⟩ capacity step) :
    Moved capacity pending session step answer ⟨list, session.handles⟩ := by
  obtain ⟨stays, erased⟩ := inOrder.removed live settled
  refine ⟨next.symm ▸ stays, means erased, fun reason refused =>
    absurd refused (notRefused reason), fun slot _ still => ?_⟩
  rw [next] at still
  exact settled.alike.cleared slot still

/-! ### Insert -/

/-- What an insert comes to. A new entry takes the first free slot. -/
structure InsertDone (capacity : UInt64) (pending : Nat → Bool)
    (session : Session SortedList Handle) (key : Int64) (payload : UInt64) (answer : Answer)
    (after : Session SortedList Handle) : Prop
    extends Moved capacity pending session (.insert key payload) answer after where
  taken : answer = .insertion (.ok .inserted) → ∃ slot,
    session.subject.pool.freeHead.slot? = some slot ∧ Live after.subject.pool slot ∧
      keyOf after.subject.pool slot = key

section Placing

variable {line : List Nat} {slot : Nat} {rest free : List Nat} {key : Int64} {payload : UInt64}

theorem available_eq (consistent : Consistent line free [] pending (handlesOn session.handles)
    session.subject.pool) : session.subject.available = .ok free.length :=
  consistent.available_eq

theorem available_ne_zero (consistent : Consistent line free [] pending
    (handlesOn session.handles) session.subject.pool) (some : free ≠ []) :
    session.subject.available ≠ .ok 0 := by
  rw [available_eq consistent]
  intro none
  exact some (List.length_eq_zero_iff.mp (Except.ok.inj none))

/-- An aligned payload is inserted, or its key is there, or there is no free node. -/
theorem insertDone (inOrder : InOrder capacity pending session)
    (consistent : Consistent line free [] pending (handlesOn session.handles)
      session.subject.pool) (aligned : payload % alignment = 0) {outcome : InsertOutcome}
    (inserting : Inserting line free pending (handlesOn session.handles) key payload
      session.subject outcome list) :
    InsertDone capacity pending session key payload (.insertion outcome)
      ⟨list, session.handles⟩ := by
  cases inserting with
  | full none =>
    subst none
    refine ⟨inOrder.unmoved rfl ⟨fun misaligned => absurd aligned misaligned,
      fun _ _ => ⟨?_, rfl⟩, fun _ some => absurd (available_eq consistent) some,
      fun _ some => absurd (available_eq consistent) some⟩, nofun⟩
    rw [inOrder.capacity]
  | duplicate some member alive same settled =>
    obtain ⟨_, laterFree, later⟩ := settled.consistent
    have live := (consistent.live_iff_mem _).mpr ⟨member, alive⟩
    have held : contents session.subject key ≠ none := by
      rw [← same, contents_of_live consistent live]
      exact Option.some_ne_none _
    have available : list.available = session.subject.available := by
      show list.pool.available = session.subject.pool.available
      rw [consistent.available_eq, later.available_eq,
        consistent.length_free_eq later settled.alike.size]
    refine ⟨inOrder.moved_of_unaltered inOrder.handled settled rfl nofun fun unchanged => ?_,
      nofun⟩
    exact ⟨fun misaligned => absurd aligned misaligned,
      fun _ none => absurd none (available_ne_zero consistent some),
      fun _ _ _ => ⟨rfl, unchanged, available⟩, fun _ _ absent => absurd absent held⟩
  | @inserted node rest _ first alone sameCapacity balance joined =>
    subst first
    have inside := consistent.accounted.inside node List.mem_cons_self
    obtain ⟨-, noPlace⟩ := (consistent.mem_free_iff inside).mp List.mem_cons_self
    have notPending := (of_placeCount_eq_zero noPlace).2
    obtain ⟨stays, added⟩ := inOrder.inserted notPending inside sameCapacity balance joined
    have next : nextPending pending session (.insert key payload) (.insertion (.ok .inserted)) =
        await pending node := by
      unfold nextPending
      rw [consistent.accounted.freeHead_slot?]
      rfl
    have absent : contents session.subject key = none := contents_eq_none_iff.mpr
      fun slot live => alone slot ((consistent.live_iff_mem slot).mp live).1
        ((consistent.live_iff_mem slot).mp live).2
    obtain ⟨_, _, later⟩ := joined.consistent
    refine ⟨⟨next.symm ▸ stays, ⟨fun misaligned => absurd aligned misaligned,
      fun _ none => absurd none (available_ne_zero consistent (List.cons_ne_nil _ _)),
      fun _ _ held => absurd absent held, fun _ _ _ => ⟨rfl, added⟩⟩, nofun,
      fun slot isPending _ => joined.alike.cleared slot isPending⟩,
      fun _ => ⟨node, consistent.accounted.freeHead_slot?, ?_, congrArg Entry.key joined.body⟩⟩
    exact (later.live_iff node).mpr ⟨await_eq_true_iff.mpr (Or.inr rfl), joined.alive⟩

end Placing

theorem insert_ends (inOrder : InOrder capacity pending session) (key : Int64)
    (payload : UInt64) : Ends (take (.insert key payload)) session
      (InsertDone capacity pending session key payload) := by
  obtain ⟨line, free, consistent⟩ := inOrder.consistent
  refine Ends.bind (act_ends ?_)
  cases word : alignedWord payload with
  | error error =>
    obtain ⟨misaligned, rfl⟩ := alignedWord_eq_error word
    refine insert_ends_of_misaligned word (Ends.pure ⟨inOrder.unmoved rfl ?_, nofun⟩)
    exact ⟨fun _ => ⟨rfl, rfl⟩, fun aligned => absurd aligned misaligned,
      fun aligned => absurd aligned misaligned, fun aligned => absurd aligned misaligned⟩
  | ok kept =>
    obtain ⟨aligned, rfl, -⟩ := alignedWord_eq_ok word
    exact (consistent.insert_ends key word).imp fun outcome list inserting =>
      Ends.pure (inOrder.insertDone consistent aligned inserting)

/-! ### Removals -/

/-- The slot that a removal finishes is that of the live node with the key. -/
theorem finish?_liveSlot? {line free : List Nat}
    (consistent : Consistent line free [] pending (handlesOn session.handles)
      session.subject.pool) {node : Nat} (live : Live session.subject.pool node) :
    finish? pending (liveSlot? session.subject.pool (keyOf session.subject.pool node)) =
      finish pending node := by
  unfold finish?
  rw [consistent.liveSlot?_eq_some live]
  rfl

theorem extract_ends (inOrder : InOrder capacity pending session) (key : Int64) :
    Ends (take (.extract key)) session (Moved capacity pending session (.extract key)) := by
  obtain ⟨line, free, consistent⟩ := inOrder.consistent
  refine Ends.bind (act_ends ((consistent.extract_ends key).imp fun found list removed =>
    Ends.pure ?_))
  rcases removed with ⟨node, member, alive, rfl, rfl, settled⟩ | ⟨alone, rfl, settled⟩
  · have live := (consistent.live_iff_mem node).mpr ⟨member, alive⟩
    refine inOrder.moved_of_removed live settled (finish?_liveSlot? consistent live) nofun
      fun erased => ⟨?_, erased⟩
    rw [contents_of_live consistent live]
  · have absent : contents session.subject key = none := contents_eq_none_iff.mpr
      fun slot live => alone slot ((consistent.live_iff_mem slot).mp live).1
        ((consistent.live_iff_mem slot).mp live).2
    refine inOrder.moved_of_unaltered inOrder.handled settled rfl nofun fun unchanged =>
      ⟨by rw [absent], ?_⟩
    rw [unchanged, ← absent, Function.update_eq_self]

theorem extractMin_ends (inOrder : InOrder capacity pending session) :
    Ends (take .extractMin) session (Moved capacity pending session .extractMin) := by
  obtain ⟨line, free, consistent⟩ := inOrder.consistent
  refine Ends.bind (act_ends (consistent.extractMin_ends.imp fun found list removed =>
    Ends.pure ?_))
  rcases removed with ⟨node, member, alive, least, rfl, settled⟩ | ⟨dead, rfl, settled⟩
  · have live := (consistent.live_iff_mem node).mpr ⟨member, alive⟩
    refine inOrder.moved_of_removed live settled (finish?_liveSlot? consistent live) nofun
      fun erased => ⟨_, rfl, GivesUpLeast.of_live consistent.distinct_live
        (mem_liveSlots.mpr live) (fun slot slotLive => ?_) erased⟩
    obtain ⟨slotMember, slotAlive⟩ := (consistent.live_iff_mem slot).mp (mem_liveSlots.mp slotLive)
    exact least slot slotMember slotAlive
  · refine inOrder.moved_of_unaltered inOrder.handled settled rfl nofun fun unchanged =>
      ⟨_, rfl, GivesUpLeast.of_none_live (fun slot slotLive => ?_) unchanged⟩
    obtain ⟨slotMember, slotAlive⟩ := (consistent.live_iff_mem slot).mp (mem_liveSlots.mp slotLive)
    exact slotAlive (dead slot slotMember)

/-! ### Looking -/

theorem entries_ends (inOrder : InOrder capacity pending session) :
    Ends (take .entries) session (Moved capacity pending session .entries) := by
  obtain ⟨line, free, consistent⟩ := inOrder.consistent
  refine Ends.bind (act_ends (consistent.entries_ends.imp fun all list listed => Ends.pure ?_))
  obtain ⟨⟨ascending, members⟩, settled⟩ := listed
  refine inOrder.moved_of_unaltered inOrder.handled settled rfl nofun fun unchanged =>
    ⟨unchanged, all, rfl, ascending, fun key payload => ?_⟩
  rw [members, contents_eq_some_iff consistent]
  simp only [consistent.live_iff_mem, and_assoc]

theorem figures_ends (inOrder : InOrder capacity pending session) :
    Ends (take .figures) session (Moved capacity pending session .figures) := by
  obtain ⟨line, free, consistent⟩ := inOrder.consistent
  have available := available_eq consistent
  have shown : figures session.subject = .ok ⟨session.subject.length, session.subject.isEmpty,
      session.subject.capacity, free.length⟩ := by
    unfold figures
    rw [available]
    rfl
  exact Ends.bind (reading_ends shown (Ends.pure (inOrder.unmoved rfl
    ⟨rfl, _, rfl, inOrder.capacity, available⟩)))

/-! ### Handles -/

/-- The counts of a handle are given up. -/
theorem giveUp_ends {line free : List Nat} {held : Nat → Nat} {handle : Handle}
    (consistent : Consistent line free [] pending
      (addCount (addCount held handle.node) handle.prev) list.pool)
    (fits : Fits list.pool.size handle) :
    Ends (giveUp handle) list fun _ after => Settled pending held 0 list after := by
  have counted := consistent.congr fun slot =>
    (addCount_pair held handle.prev handle.node slot).symm
  refine onNodes_ends ((counted.releaseAll_ends _ fun slot member => ?_).imp
    fun _ pool released => ?_)
  · simp only [List.mem_cons, List.not_mem_nil, or_false] at member
    rcases member with rfl | rfl
    · exact fits.prev
    · exact fits.node
  · obtain ⟨laterFree, settled, alike⟩ := released
    exact ⟨rfl, (Int.add_zero _).symm, ⟨line, laterFree, settled⟩, alike⟩

theorem fits_of_find? (inOrder : InOrder capacity pending session) {name : String}
    {handle : Handle} (found : session.handles.find? name = some handle) :
    Fits session.subject.pool.size handle :=
  inOrder.handled.fits handle (HandleTable.mem_handles_of_find? found)

theorem release_ends (inOrder : InOrder capacity pending session) (name : String) :
    Ends (take (.release name)) session (Moved capacity pending session (.release name)) := by
  obtain ⟨line, free, consistent⟩ := inOrder.consistent
  refine withHandle_ends (fun absent => inOrder.unmoved rfl (HandleMeans.of_none absent))
    fun handle found => ?_
  have counted := consistent.congr fun slot => (handlesOn_of_find? found slot).symm
  refine Ends.bind (forget_ends (Ends.bind (act_ends
    ((giveUp_ends counted (inOrder.fits_of_find? found)).imp fun _ list settled =>
      Ends.pure ?_))))
  exact inOrder.moved_of_unaltered (inOrder.handled.erase name) settled rfl nofun
    fun unchanged => (handleMeans_iff found).mpr ⟨rfl, unchanged⟩

/-! ### Searching -/

/-- What a search has found is kept under a name, in place of what was there before. -/
theorem keepFound_ends (inOrder : InOrder capacity pending session) {line free : List Nat}
    (consistent : Consistent line free [] pending (handlesOn session.handles)
      session.subject.pool) {wanted : Int64} {prev node : Nat} {pool : Pool 1 Entry}
    (found : consistent.ground.Found [] wanted (prev, node) pool) (name : String)
    {answer : Answer} (notRefused : ∀ reason, answer ≠ .refused reason) :
    Ends (keep giveUp name ⟨prev, node, false⟩ >>= fun _ => pure answer)
      { session with subject := { session.subject with pool } }
      (Moved capacity pending session (.search name wanted)) := by
  have walked := consistent.found_walked found
  have alike : Alike pending session.subject.pool pool := found.holds.alike pending
  have fits : Fits session.subject.pool.size ⟨prev, node, false⟩ := by
    refine ⟨?_, ?_, fun isHead => ?_⟩
    · exact consistent.inside (mem_spine_of_mem_cons found.member)
    · exact consistent.inside found.adjacent.mem_spine
    · have front : rank line prev < rank line node := found.adjacent.before
      rw [show node = headSlot from isHead, rank_head] at front
      exact Nat.not_lt_zero _ front
  have handled := inOrder.handled.put name fits rfl
  have kept : ∀ {list}, Settled pending (handlesOn (session.handles.put name ⟨prev, node, false⟩))
      0 session.subject list → Ends (pure answer)
        ⟨list, session.handles.put name ⟨prev, node, false⟩⟩
        (Moved capacity pending session (.search name wanted)) := fun settled =>
    Ends.pure (inOrder.moved_of_unaltered handled settled (by cases answer <;> rfl) notRefused id)
  refine Ends.bind (keep_ends (fun absent => kept ?_) fun old oldFound => ?_)
  · have counted : ∀ slot, handlesOn (session.handles.put name ⟨prev, node, false⟩) slot =
        addCount (addCount (handlesOn session.handles) node) prev slot := by
      intro slot
      rw [handlesOn_put, addCount_pair, addCount_pair,
        handlesOn_of_none absent]
    exact ⟨rfl, (Int.add_zero _).symm, ⟨_, _, walked.congr counted⟩, alike⟩
  · have counted : ∀ slot, addCount (addCount (handlesOn
        (session.handles.put name ⟨prev, node, false⟩)) old.node) old.prev slot =
        addCount (addCount (handlesOn session.handles) node) prev slot := by
      intro slot
      rw [addCount_pair, addCount_pair, handlesOn_put,
        addCount_pair, handlesOn_of_find? oldFound, addCount_pair]
      exact Nat.add_right_comm _ _ _
    have oldFits : Fits pool.size old := alike.size.symm ▸ inOrder.fits_of_find? oldFound
    exact (giveUp_ends (walked.congr counted) oldFits).imp fun _ list settled =>
      kept (settled.of_alike alike)

theorem takeSearch_ends (inOrder : InOrder capacity pending session) (name : String)
    (key : Int64) : Ends (takeSearch name key) session
      (Moved capacity pending session (.search name key)) := by
  obtain ⟨line, free, consistent⟩ := inOrder.consistent
  unfold takeSearch
  refine Ends.bind (act_ends (onNodes_ends ((search_ends consistent.holds key).imp
    fun position pool found => ?_)))
  obtain ⟨prev, node⟩ := position
  refine Ends.bind (act_ends (onNodes_ends (nameOf_ends
    (found.holds.inside (mem_spine_of_mem_cons found.member)) ?_)))
  refine Ends.bind (act_ends (onNodes_ends (nameOf_ends
    (found.holds.inside found.adjacent.mem_spine) ?_)))
  exact inOrder.keepFound_ends consistent found name nofun

/-! ### The stages of a removal -/

section Stages

variable {name : String} {handle : Handle}

/-- What a handle refers to as its node is an inner node or the tail. -/
theorem isSentinel_eq_false (inOrder : InOrder capacity pending session)
    (found : session.handles.find? name = some handle) (inner : handle.node ≠ tailSlot) :
    isSentinel handle.node = false :=
  isSentinel_eq_false_iff.mpr ⟨(inOrder.fits_of_find? found).behind, inner⟩

theorem live_iff_of_find? (inOrder : InOrder capacity pending session)
    (found : session.handles.find? name = some handle) (inner : handle.node ≠ tailSlot) :
    Live session.subject.pool handle.node ↔ ¬ Marked session.subject.pool handle.node := by
  obtain ⟨line, free, consistent⟩ := inOrder.consistent
  have inside := (inOrder.fits_of_find? found).node
  have occupied : handle.node ∉ free :=
    consistent.accounted.not_free_of_pos (Nat.add_pos_left (handlesOn_pos found).2 _)
  refine ⟨fun live => live.2.2.2, fun unmarked => (consistent.live_iff_mem _).mpr ⟨?_, unmarked⟩⟩
  exact consistent.mem_line_of_unmarked (inOrder.isSentinel_eq_false found inner) inside occupied
    unmarked

theorem takeMark_ends (inOrder : InOrder capacity pending session)
    (found : session.handles.find? name = some handle) :
    Ends (takeMark name handle) session fun answer after =>
      InOrder capacity pending after ∧ MarkMeans session answer after handle ∧
        (∀ reason, answer = .refused reason → after = session) ∧
        ∀ slot, session.subject.pool.linkOf slot 0 = Link.cleared →
          after.subject.pool.linkOf slot 0 = Link.cleared := by
  unfold takeMark
  by_cases isTail : handle.node = tailSlot
  · rw [if_pos isTail]
    refine Ends.pure ⟨inOrder, ⟨fun _ => ⟨rfl, rfl⟩, fun live => ?_,
      fun inner => absurd isTail inner⟩, fun _ _ => rfl, fun _ off => off⟩
    rw [isTail] at live
    exact absurd live.1 (by decide)
  · rw [if_neg isTail]
    obtain ⟨line, free, consistent⟩ := inOrder.consistent
    have inside := (inOrder.fits_of_find? found).node
    have liveIff := inOrder.live_iff_of_find? found isTail
    by_cases dead : Marked session.subject.pool handle.node
    · refine Ends.bind (act_ends (onNodes_ends (mark_ends_of_marked dead ?_)))
      rw [if_neg Bool.false_ne_true]
      exact Ends.pure ⟨inOrder, ⟨fun same => absurd same isTail,
        fun live => absurd dead (liveIff.mp live), fun _ _ => ⟨rfl, rfl⟩⟩, nofun, fun _ off => off⟩
    · have live := liveIff.mpr dead
      obtain ⟨stays, erased⟩ := inOrder.marked found live
      refine Ends.bind (act_ends (onNodes_ends (mark_ends inside dead ?_)))
      rw [if_pos rfl]
      refine Ends.bind (put_ends (Ends.pure ⟨stays, ⟨fun same => absurd same isTail, fun _ =>
        ⟨rfl, contents_of_live consistent live, erased⟩, fun _ isDead => absurd live isDead⟩, nofun,
        fun slot off => ?_⟩))
      show (deleted session.subject.pool handle.node).linkOf slot 0 = Link.cleared
      rw [linkOf_deleted inside, if_neg]
      · exact off
      · rintro rfl
        exact consistent.not_mem_of_cleared off
          (List.mem_cons_of_mem _ ((consistent.live_iff_mem _).mp live).1)

theorem takeUnlink_ends (inOrder : InOrder capacity pending session)
    (found : session.handles.find? name = some handle) :
    Ends (takeUnlink handle) session (Moved capacity pending session (.unlink name)) := by
  have means : ∀ {answer after}, UnlinkMeans session answer after handle →
      Meaning session answer after capacity (.unlink name) := (handleMeans_iff found).mpr
  have fits := inOrder.fits_of_find? found
  unfold takeUnlink
  by_cases isTail : handle.node = tailSlot
  · rw [if_pos isTail]
    obtain ⟨line, free, consistent⟩ := inOrder.consistent
    refine Ends.pure (inOrder.unmoved rfl (means ⟨rfl, fun _ => ⟨rfl, rfl⟩,
      fun inner => absurd isTail inner, fun marked => ?_⟩))
    rw [isTail] at marked
    exact absurd marked (not_marked_of_nil consistent.strung.tailNil)
  · rw [if_neg isTail]
    refine Ends.bind (act_ends (onNodes_ends (linkAt_ends fits.node Nat.zero_lt_one ?_)))
    by_cases dead : Marked session.subject.pool handle.node
    · rw [if_pos (show (session.subject.pool.linkOf handle.node 0).isMarked = true from dead)]
      obtain ⟨line, free, consistent⟩ := inOrder.consistent
      refine Ends.bind (act_ends (onNodes_ends ((consistent.unlink_held_ends fits.prev
        (handlesOn_pos found).1 dead).imp fun unlinked pool off => Ends.pure ?_)))
      obtain ⟨answered, ⟨laterLine, later⟩, alike⟩ := off
      have settled : Settled pending (handlesOn session.handles) 0 session.subject
          { session.subject with pool } :=
        ⟨rfl, (Int.add_zero _).symm, ⟨laterLine, free, later⟩, alike⟩
      exact inOrder.moved_of_unaltered inOrder.handled settled rfl nofun fun unchanged =>
        means ⟨unchanged, fun same => absurd same isTail,
          fun _ alive => absurd dead alive, fun _ => congrArg Answer.flag answered⟩
    · rw [if_neg (show ¬ (session.subject.pool.linkOf handle.node 0).isMarked = true from dead)]
      exact Ends.pure (inOrder.unmoved rfl (means ⟨rfl, fun same => absurd same isTail,
        fun _ _ => ⟨rfl, rfl⟩, fun marked => absurd marked dead⟩))

theorem takeComplete_ends (inOrder : InOrder capacity pending session)
    (found : session.handles.find? name = some handle) :
    Ends (takeComplete name handle) session
      (Moved capacity pending session (.complete name)) := by
  have means : ∀ {answer after}, CompleteMeans session answer after handle →
      Meaning session answer after capacity (.complete name) := (handleMeans_iff found).mpr
  unfold takeComplete
  cases isOwner : handle.owner with
  | false =>
    rw [if_neg Bool.false_ne_true]
    exact Ends.pure (inOrder.unmoved rfl (means ⟨rfl,
      fun owner => absurd (isOwner.symm.trans owner) (by simp), fun _ => ⟨rfl, rfl⟩⟩))
  | true =>
    rw [if_pos rfl]
    obtain ⟨line, free, consistent⟩ := inOrder.consistent
    obtain ⟨dead, isPending⟩ := inOrder.handled.owned _ (HandleTable.mem_owned found isOwner)
    have fits := inOrder.fits_of_find? found
    have counted := consistent.congr fun slot => (handlesOn_of_find? found slot).symm
    refine Ends.bind (act_ends (onNodes_ends (bodyAt_ends fits.node ?_)))
    refine Ends.bind (forget_ends (Ends.bind (act_ends ((counted.completeRemoval_ends isPending
      dead fits.prev).imp fun _ list settled => Ends.pure ?_))))
    obtain ⟨stays, same⟩ := inOrder.completed found isOwner settled
    have next : nextPending pending session (.complete name) (.payload (some
        (session.subject.pool.bodyOf handle.node).payload)) = finish pending handle.node := by
      show finish? pending ((session.handles.find? name).map Handle.node) = _
      rw [found]
      rfl
    refine ⟨next.symm ▸ stays, means ⟨same, fun _ => rfl,
      fun notOwner => absurd (isOwner.symm.trans notOwner) (by simp)⟩, nofun,
      fun slot _ still => ?_⟩
    rw [next] at still
    exact settled.alike.cleared slot still

end Stages

/-! ### Any step -/

/-- Any step has an answer. -/
theorem take_ends (inOrder : InOrder capacity pending session) (step : Step) :
    Ends (take step) session (Moved capacity pending session step) := by
  cases step with
  | insert key payload => exact (inOrder.insert_ends key payload).imp fun _ _ done => done.toMoved
  | extractMin => exact inOrder.extractMin_ends
  | extract key => exact inOrder.extract_ends key
  | entries => exact inOrder.entries_ends
  | figures => exact inOrder.figures_ends
  | describe => exact reading_ends rfl (inOrder.unmoved rfl rfl)
  | search name key => exact inOrder.takeSearch_ends name key
  | mark name =>
    refine withHandle_ends (fun absent => inOrder.unmoved rfl (HandleMeans.of_none absent))
      fun handle found => ?_
    refine (inOrder.takeMark_ends found).imp fun answer after done => ?_
    obtain ⟨stays, means, refused, off⟩ := done
    have next : nextPending pending session (.mark name) answer = pending := by cases answer <;> rfl
    exact ⟨next.symm ▸ stays, (handleMeans_iff found).mpr means, refused, fun slot _ _ => off slot⟩
  | unlink name =>
    exact withHandle_ends (fun absent => inOrder.unmoved rfl (HandleMeans.of_none absent))
      fun handle found => inOrder.takeUnlink_ends found
  | complete name =>
    exact withHandle_ends (fun absent => inOrder.unmoved rfl (HandleMeans.of_none absent))
      fun handle found => inOrder.takeComplete_ends found
  | release name => exact inOrder.release_ends name

end InOrder

end SortedList

end PooledContainers
