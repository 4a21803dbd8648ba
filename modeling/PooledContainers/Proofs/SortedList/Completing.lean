/-
Removals that are completed. The handle that owns a removal may come late: its predecessor may be
deleted or gone, other nodes may stand in between, a helper may have taken the node off the list,
and the key may have been inserted anew. The removal is completed all the same, and nothing but the
node and the counts of the handle is given up.
-/

import PooledContainers.Proofs.SortedList.Shape

namespace PooledContainers

namespace SortedList

open Line Operation Pool Session

/-- The removal that a handle owns was completed. -/
structure Finished (name : String) (handle : Handle) (session : Session SortedList Handle)
    (answer : Answer) (after : Session SortedList Handle) : Prop where
  answered : answer = .payload (some (session.subject.pool.bodyOf handle.node).payload)
  /-- The handle is used up, and all others are still there. -/
  handles : after.handles = session.handles.erase name
  /-- The node cannot be reached from the head. -/
  off : ¬ after.subject.pool.Met 0 handle.node
  /-- The live entries are the same ones with the same keys and payloads, -/
  live : ∀ slot, Live after.subject.pool slot ↔ Live session.subject.pool slot
  body : ∀ slot, Live session.subject.pool slot →
    after.subject.pool.bodyOf slot = session.subject.pool.bodyOf slot
  /-- and they are met in the same order. -/
  order : ∃ live, LiveChain session.subject.pool live ∧ LiveChain after.subject.pool live
  length : session.subject.length = after.subject.length + 1
  /-- The node was not free. It is now just if no other handle is on it. -/
  freed : ∃ free later, session.subject.pool.FreeChain session.subject.pool.freeHead free ∧
    after.subject.pool.FreeChain after.subject.pool.freeHead later ∧ handle.node ∉ free ∧
      (handle.node ∈ later ↔ handlesOn after.handles handle.node = 0)

namespace InOrder

variable {capacity : UInt64} {pending : Nat → Bool} {session : Session SortedList Handle}
  {name : String} {handle : Handle}

/-- What a completed removal leaves, when all that is still pending is as it was. -/
theorem finished (inOrder : InOrder capacity pending session)
    (found : session.handles.find? name = some handle) (isOwner : handle.owner = true)
    {list : SortedList} (settled : Settled (finish pending handle.node)
      (handlesOn (session.handles.erase name)) (-1) session.subject list) :
    Finished name handle session
      (.payload (some (session.subject.pool.bodyOf handle.node).payload))
      ⟨list, session.handles.erase name⟩ := by
  obtain ⟨line, free, before⟩ := inOrder.consistent
  obtain ⟨laterLine, laterFree, after⟩ := settled.consistent
  obtain ⟨marked, isPending⟩ := inOrder.handled.owned _ (HandleTable.mem_owned found isOwner)
  have alike := settled.alike
  have notPending : finish pending handle.node handle.node = false :=
    Bool.eq_false_iff.mpr fun still => (finish_eq_true_iff.mp still).2 rfl
  have inner := before.isSentinel_eq_false_of_pending isPending
  -- A live node is not the one whose removal was completed, so it is pending before and after.
  have stillPending : ∀ slot, Live session.subject.pool slot →
      finish pending handle.node slot = true := fun slot live =>
    finish_eq_true_iff.mpr
      ⟨((before.live_iff slot).mp live).1, fun same => live.2.2.2 (same ▸ marked)⟩
  have live : ∀ slot, Live list.pool slot ↔ Live session.subject.pool slot := by
    intro slot
    constructor
    · intro isLive
      obtain ⟨isLater, unmarked⟩ := (after.live_iff slot).mp isLive
      exact (before.live_iff slot).mpr
        ⟨(finish_eq_true_iff.mp isLater).1, (alike.marked slot isLater).not.mp unmarked⟩
    · intro isLive
      have isLater := stillPending slot isLive
      exact (after.live_iff slot).mpr ⟨isLater, (alike.marked slot isLater).not.mpr isLive.2.2.2⟩
  have body : ∀ slot, Live session.subject.pool slot →
      list.pool.bodyOf slot = session.subject.pool.bodyOf slot := fun slot isLive =>
    alike.body slot (stillPending slot isLive)
  refine ⟨rfl, rfl, fun met => ?off, live, body, ⟨_, before.liveChain, ?order⟩, ?length,
    free, laterFree, before.accounted.chain, after.accounted.chain,
    before.accounted.not_free_of_pos (Nat.add_pos_left (handlesOn_pos found).2 _), ?freed⟩
  case off =>
    have member := mem_of_mem_spine ((after.met_iff handle.node).mp met) inner
    exact after.not_mem_of_not_pending notPending member
  case order =>
    rw [← before.liveChain.eq_of_live after.liveChain live fun slot isLive =>
      keyOf_congr (body slot isLive)]
    exact after.liveChain
  case length =>
    have later := (inOrder.completed found isOwner settled).1.length_eq
    have size : list.pool.size = session.subject.pool.size := alike.size
    have counted := inOrder.counted_finish isPending
    rw [show (⟨list, session.handles.erase name⟩ : Session SortedList Handle).subject = list
      from rfl, size] at later
    rw [inOrder.length_eq, later]
    omega
  case freed =>
    refine after.mem_free_iff_idle.trans ⟨fun idle => idle.2.2.2, fun unheld => ?_⟩
    exact ⟨alike.size ▸ inside_of_marked marked, inner, notPending, unheld⟩

/-- Completing a removal always comes to its end. -/
theorem complete_finishes (inOrder : InOrder capacity pending session)
    (found : session.handles.find? name = some handle) (isOwner : handle.owner = true) :
    Ends (take (.complete name)) session (Finished name handle session) := by
  obtain ⟨line, free, consistent⟩ := inOrder.consistent
  obtain ⟨marked, isPending⟩ := inOrder.handled.owned _ (HandleTable.mem_owned found isOwner)
  have fits := inOrder.fits_of_find? found
  have counted := consistent.congr fun slot => (handlesOn_of_find? found slot).symm
  refine withHandle_ends (fun absent => absurd (found.symm.trans absent) (by simp))
    fun other otherFound => ?_
  obtain rfl := Option.some.inj (found.symm.trans otherFound)
  unfold takeComplete
  rw [if_pos isOwner]
  refine Ends.bind (act_ends (onNodes_ends (bodyAt_ends fits.node ?_)))
  refine Ends.bind (forget_ends (Ends.bind (act_ends ((counted.completeRemoval_ends isPending
    marked fits.prev).imp fun _ list settled => Ends.pure ?_))))
  exact inOrder.finished found isOwner settled

end InOrder

/-- In every session of a run the removal that a handle owns can be completed, whatever has happened
since the handle was made. -/
theorem removals_complete {capacity : UInt64} {pending : Nat → Bool}
    {session : Session SortedList Handle} {name : String} {handle : Handle}
    (reached : Reached capacity pending session)
    (found : session.handles.find? name = some handle) (isOwner : handle.owner = true) :
    Ends (take (.complete name)) session (Finished name handle session) :=
  reached.inOrder.complete_finishes found isOwner

/-- The removal can be completed when the node is off the list and its key was inserted anew. -/
theorem removals_complete_halfRemoved : ∃ pending session handle,
    followFromStart 3 halfRemoved = some (pending, session) ∧ HalfDone pending session handle ∧
      Ends (take (.complete "owner")) session (Finished "owner" handle session) := by
  obtain ⟨pending, session, handle, followed, halfDone⟩ := exists_halfRemoved
  exact ⟨pending, session, handle, followed, halfDone,
    removals_complete (Reached.of_steps followed) halfDone.named halfDone.owner⟩

end SortedList

end PooledContainers
