/-
What holds of a session with a list at all times: its nodes are consistent with its handles and with
what is pending, handles refer to nodes of the pool, and each owned removal is pending and owned
once. A step leaves what is held as it was, or gives up the key of one live node, or adds one.
-/

import PooledContainers.Proofs.SortedList.Contents

namespace PooledContainers

namespace SortedList

open Line Pool

/-! ### Handles -/

section Handles

variable {handles : HandleTable Handle} {name : String} {handle : Handle}

theorem handlesOn_put (handles : HandleTable Handle) (name : String) (handle : Handle)
    (slot : Nat) : handlesOn (handles.put name handle) slot =
      addCount (addCount (handlesOn (handles.erase name)) handle.node) handle.prev slot := by
  rw [addCount_pair, Nat.add_comm]
  exact HandleTable.total_put _ handles name handle

theorem handlesOn_of_find? (found : handles.find? name = some handle) (slot : Nat) :
    handlesOn handles slot =
      addCount (addCount (handlesOn (handles.erase name)) handle.node) handle.prev slot := by
  rw [addCount_pair, Nat.add_comm]
  exact HandleTable.total_of_find? _ found

theorem handlesOn_of_none (absent : handles.find? name = none) (slot : Nat) :
    handlesOn (handles.erase name) slot = handlesOn handles slot :=
  HandleTable.total_of_none _ absent

theorem handlesOn_pos (found : handles.find? name = some handle) :
    0 < handlesOn handles handle.prev ∧ 0 < handlesOn handles handle.node := by
  rw [handlesOn_of_find? found, handlesOn_of_find? found]
  unfold addCount
  rw [if_pos rfl, if_pos rfl]
  omega

end Handles

/-- What a handle refers to is in the pool, and its node is behind the head. -/
structure Fits (size : Nat) (handle : Handle) : Prop where
  prev : handle.prev < size
  node : handle.node < size
  behind : handle.node ≠ headSlot

/-- The handles fit, and every removal that is owned is begun, pending and owned by one handle
only. -/
abbrev Handled (handles : HandleTable Handle) (pending : Nat → Bool) (pool : Pool 1 Entry) : Prop :=
  handles.Kept Handle.owner Handle.node (Fits pool.size) fun slot =>
    Marked pool slot ∧ pending slot = true

/-- What is owned stays begun and pending if such nodes stay as they were. -/
theorem Handled.alike {handles : HandleTable Handle} {pending fewer later : Nat → Bool}
    {pool after : Pool 1 Entry} (handled : Handled handles pending pool)
    (alike : Alike fewer pool after) (still : ∀ slot, Marked pool slot → pending slot = true →
      fewer slot = true ∧ later slot = true) : Handled handles later after := by
  refine HandleTable.Kept.mono handled (fun _ _ fits => alike.size.symm ▸ fits) fun slot _ due => ?_
  obtain ⟨isFewer, isLater⟩ := still slot due.1 due.2
  exact ⟨(alike.marked slot isFewer).mpr due.1, isLater⟩

/-! ### Sessions in order -/

/-- What holds of a session between two steps. -/
structure InOrder (capacity : UInt64) (pending : Nat → Bool)
    (session : Session SortedList Handle) : Prop where
  consistent : ∃ line free,
    Consistent line free [] pending (handlesOn session.handles) session.subject.pool
  handled : Handled session.handles pending session.subject.pool
  size : session.subject.pool.size = capacity.toNat + sentinelCount
  capacity : session.subject.capacity = capacity
  /-- The balance counts the removals that are pending. -/
  balance : session.subject.balance =
    ((pendingBelow pending session.subject.pool.size).length : Int)

namespace InOrder

variable {capacity : UInt64} {pending later : Nat → Bool} {session : Session SortedList Handle}
  {list : SortedList} {handles : HandleTable Handle} {change : Int} {node : Nat}

/-- A pending slot is a slot of the pool. -/
theorem inside_of_pending (inOrder : InOrder capacity pending session)
    (isPending : pending node = true) : node < session.subject.pool.size := by
  obtain ⟨line, free, consistent⟩ := inOrder.consistent
  rcases consistent.pendingKnown node isPending with member | isCleared
  · exact consistent.inside (mem_spine_of_mem member)
  · exact inside_of_marked (marked_of_cleared isCleared)

/-- The length counts the removals that are pending. -/
theorem length_eq (inOrder : InOrder capacity pending session) :
    session.subject.length = (pendingBelow pending session.subject.pool.size).length := by
  unfold SortedList.length
  rw [inOrder.balance, Int.toNat_natCast]

/-- What an operation leaves is in order if the balance has changed as what is pending has. -/
theorem of_settled (inOrder : InOrder capacity pending session)
    (handled : Handled handles later list.pool)
    (settled : Settled later (handlesOn handles) change session.subject list)
    (counted : ((pendingBelow later session.subject.pool.size).length : Int) =
      (pendingBelow pending session.subject.pool.size).length + change) :
    InOrder capacity later ⟨list, handles⟩ where
  consistent := settled.consistent
  handled := handled
  capacity := settled.capacity.trans inOrder.capacity
  size := settled.alike.size.trans inOrder.size
  balance := by
    show list.balance = ((pendingBelow later list.pool.size).length : Int)
    rw [settled.balance, settled.alike.size, inOrder.balance, counted]

/-- A removal that was pending is finished, and counted off. -/
theorem counted_finish (inOrder : InOrder capacity pending session)
    (isPending : pending node = true) :
    ((pendingBelow (finish pending node) session.subject.pool.size).length : Int) =
      (pendingBelow pending session.subject.pool.size).length + -1 := by
  rw [length_pendingBelow_finish isPending (inOrder.inside_of_pending isPending)]
  omega

/-- A step that leaves the pending nodes as they are changes nothing that is held. -/
theorem unaltered (inOrder : InOrder capacity pending session)
    (handled : Handled handles pending session.subject.pool)
    (settled : Settled pending (handlesOn handles) 0 session.subject list) :
    InOrder capacity pending ⟨list, handles⟩ ∧ contents list = contents session.subject := by
  obtain ⟨_, _, before⟩ := inOrder.consistent
  obtain ⟨_, _, after⟩ := settled.consistent
  have stillHandled : Handled handles pending list.pool :=
    handled.alike settled.alike fun _ _ isPending => ⟨isPending, isPending⟩
  exact ⟨inOrder.of_settled stillHandled settled (Int.add_zero _).symm,
    contents_eq_of_alike before after settled.alike (fun _ isPending => isPending)
      fun slot live => ((before.live_iff slot).mp live).1⟩

/-- A removal was completed by the handle that owned it. -/
theorem completed (inOrder : InOrder capacity pending session) {name : String} {handle : Handle}
    (found : session.handles.find? name = some handle) (isOwner : handle.owner = true)
    (settled : Settled (finish pending handle.node) (handlesOn (session.handles.erase name)) (-1)
      session.subject list) :
    InOrder capacity (finish pending handle.node) ⟨list, session.handles.erase name⟩ ∧
      contents list = contents session.subject := by
  obtain ⟨_, _, before⟩ := inOrder.consistent
  obtain ⟨_, _, after⟩ := settled.consistent
  obtain ⟨marked, isPending⟩ := inOrder.handled.owned _ (HandleTable.mem_owned found isOwner)
  have others : Handled (session.handles.erase name) (finish pending handle.node)
      session.subject.pool := inOrder.handled.finish found isOwner fun slot apart due =>
    And.intro due.1 (finish_eq_true_iff.mpr ⟨due.2, apart⟩)
  have stillHandled : Handled (session.handles.erase name) (finish pending handle.node)
      list.pool := others.alike settled.alike fun _ _ still => ⟨still, still⟩
  refine ⟨inOrder.of_settled stillHandled settled (inOrder.counted_finish isPending),
    contents_eq_of_alike before after settled.alike Consistent.finish_le fun slot live => ?_⟩
  obtain ⟨slotPending, unmarked⟩ := (before.live_iff slot).mp live
  exact finish_eq_true_iff.mpr ⟨slotPending, fun same => unmarked (same ▸ marked)⟩

/-- A live node was removed. -/
theorem removed (inOrder : InOrder capacity pending session)
    (nodeLive : Live session.subject.pool node)
    (settled : Settled (finish pending node) (handlesOn session.handles) (-1) session.subject
      list) :
    InOrder capacity (finish pending node) ⟨list, session.handles⟩ ∧
      contents list = Function.update (contents session.subject)
        (keyOf session.subject.pool node) none := by
  obtain ⟨_, _, before⟩ := inOrder.consistent
  obtain ⟨_, _, after⟩ := settled.consistent
  have isPending := ((before.live_iff node).mp nodeLive).1
  have stays : ∀ slot, Marked session.subject.pool slot → pending slot = true →
      finish pending node slot = true := fun slot marked slotPending =>
    finish_eq_true_iff.mpr ⟨slotPending, fun same => nodeLive.2.2.2 (same ▸ marked)⟩
  have stillHandled : Handled session.handles (finish pending node) list.pool :=
    inOrder.handled.alike settled.alike fun slot marked slotPending =>
      ⟨stays slot marked slotPending, stays slot marked slotPending⟩
  exact ⟨inOrder.of_settled stillHandled settled (inOrder.counted_finish isPending),
    contents_eq_erase before after nodeLive settled.alike after.live_iff⟩

/-- A live node was marked through a handle, which owns the removal from now on. -/
theorem marked (inOrder : InOrder capacity pending session) {name : String} {handle : Handle}
    (found : session.handles.find? name = some handle)
    (nodeLive : Live session.subject.pool handle.node) :
    InOrder capacity pending
      ⟨{ session.subject with pool := deleted session.subject.pool handle.node },
        session.handles.put name { handle with owner := true }⟩ ∧
    contents { session.subject with pool := deleted session.subject.pool handle.node } =
      Function.update (contents session.subject)
        (keyOf session.subject.pool handle.node) none := by
  obtain ⟨line, free, before⟩ := inOrder.consistent
  obtain ⟨member, alive⟩ := (before.live_iff_mem handle.node).mp nodeLive
  have inside : handle.node < session.subject.pool.size :=
    before.inside (mem_spine_of_mem member)
  have isPending := before.linkedPending handle.node member
  have later := before.deleted member
  have alike : Alike (finish pending handle.node) session.subject.pool
      (deleted session.subject.pool handle.node) := alike_deleted inside
  have marks := marked_deleted_iff inside
  have stillMarked : Handled session.handles pending (deleted session.subject.pool handle.node) :=
    HandleTable.Kept.mono inOrder.handled (fun _ _ fits => alike.size.symm ▸ fits)
      fun slot _ due => ⟨(marks slot).mpr (Or.inr due.1), due.2⟩
  have fits := inOrder.handled.fits handle (HandleTable.mem_handles_of_find? found)
  have counted : ∀ slot, handlesOn (session.handles.put name { handle with owner := true }) slot =
      handlesOn session.handles slot := fun slot =>
    (handlesOn_put _ _ _ slot).trans (handlesOn_of_find? found slot).symm
  refine ⟨⟨⟨line, free, later.congr counted⟩, stillMarked.own name _
    (alike.size.symm ▸ ⟨fits.prev, fits.node, fits.behind⟩) rfl
    (fun inOwned => alive (inOrder.handled.owned _ inOwned).1)
    ⟨(marks _).mpr (Or.inl rfl), isPending⟩, alike.size.trans inOrder.size, inOrder.capacity,
    ?_⟩, contents_eq_erase before later nodeLive alike fun slot => ?_⟩
  · show session.subject.balance = _
    rw [inOrder.balance, alike.size]
  · rw [later.live_iff, finish_eq_true_iff, marks, not_or]
    tauto

/-- A node was linked. -/
theorem inserted (inOrder : InOrder capacity pending session) {entry : Entry}
    (notPending : pending node = false) (inside : node < session.subject.pool.size)
    (sameCapacity : list.capacity = session.subject.capacity)
    (balance : list.balance = session.subject.balance + 1)
    (joined : Joined pending (handlesOn session.handles) node entry session.subject.pool
      list.pool) :
    InOrder capacity (await pending node) ⟨list, session.handles⟩ ∧
      contents list =
        Function.update (contents session.subject) entry.key (some entry.payload) := by
  obtain ⟨_, _, before⟩ := inOrder.consistent
  have stillHandled : Handled session.handles (await pending node) list.pool :=
    inOrder.handled.alike joined.alike fun slot _ isPending =>
      ⟨isPending, await_eq_true_iff.mpr (Or.inl isPending)⟩
  refine ⟨⟨joined.consistent, stillHandled, joined.alike.size.trans inOrder.size,
    sameCapacity.trans inOrder.capacity, ?_⟩, contents_eq_set before notPending joined⟩
  show list.balance = ((pendingBelow (await pending node) list.pool.size).length : Int)
  rw [balance, joined.alike.size, length_pendingBelow_await notPending inside, inOrder.balance]
  rfl

end InOrder

end SortedList

end PooledContainers
