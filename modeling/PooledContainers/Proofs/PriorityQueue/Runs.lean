/-
All legal runs of a queue. A queue starts in order and every step keeps it so, whatever was left
half done before. Hence a queue is a map from keys to payloads that starts empty and changes as the
steps mean.
-/

import PooledContainers.Proofs.PriorityQueue.Operating
import PooledContainers.Proofs.PriorityQueue.Start

namespace PooledContainers

namespace PriorityQueue

open Line Operation Pool

variable {options : Options} {history : History} {session : Session PriorityQueue Handle}

/-! ### Runs stay in order -/

/-- An empty queue is in order. -/
theorem inOrder_start [NodeKind maxLevels Entry] {queue : PriorityQueue}
    (made : ofOptions options = .ok queue) :
    ∃ free, InOrder options History.start (Session.start queue) [] free := by
  obtain ⟨capacity, maxHeight, balance, size, free, consistent⟩ := ofOptions_eq_ok made
  rw [maxHeight] at consistent
  have noneLive : liveSlots queue.pool = [] := by
    refine List.eq_nil_iff_forall_not_mem.mpr fun slot member => ?_
    have inLine := ((consistent.live_iff slot).mp (mem_liveSlots.mp member)).1
    exact absurd inLine (by simp)
  refine ⟨free, consistent.congr fun _ => rfl, HandleTable.Kept.empty,
    ⟨by simp, by simp⟩, maxHeight, capacity, size, ?_⟩
  show queue.balance = ((liveSlots queue.pool).length : Int)
  rw [balance, noneLive]
  rfl

/-- Every session of a legal run is in order. -/
theorem Reached.inOrder (reached : Reached options history session) :
    ∃ line free, InOrder options history session line free := by
  induction reached with
  | start made => exact ⟨[], inOrder_start made⟩
  | step before towards taken inductionHypothesis =>
    obtain ⟨line, free, inOrder⟩ := inductionHypothesis
    exact ((inOrder.take_ends _).of_ran taken).inOrder towards

/-! ### A queue as a map -/

/-- A queue holds nothing at first. From then on every step of a legal run has an answer, and the
answer and what the queue holds afterwards are as the step means; a step that is refused changes
nothing at all. -/
theorem steps_mean [NodeKind maxLevels Entry] {queue : PriorityQueue}
    (made : ofOptions options = .ok queue) :
    (∀ key, contents queue key = none) ∧
      ∀ history session, Reached options history session → ∀ step,
        Ends (take step) session fun answer after =>
          Meaning session answer after options step ∧
            ∀ reason, answer = .refused reason → after = session := by
  constructor
  · intro key
    obtain ⟨free, inOrder⟩ := inOrder_start made
    refine contents_eq_none_iff.mpr fun slot live _ => ?_
    exact absurd ((inOrder.consistent.live_iff slot).mp live).1 (by simp)
  · intro history session reached step
    obtain ⟨line, free, inOrder⟩ := reached.inOrder
    exact (inOrder.take_ends step).imp fun answer after moved => ⟨moved.means, moved.refused⟩

/-! ### A removal left half done -/

/-- A queue for three entries on two levels. -/
def smallOptions : Options := ⟨3, 2, BackoffBounds.default⟩

/-- Two entries are inserted, and the removal of the second is left half done: committed, hinted,
marked above and taken off there. Its key is then inserted anew. -/
def halfRemoved : List Step :=
  [.insert 3 24 0, .insert 5 8 1, .hold "node" (.firstFrom 5), .commit "node",
    .hold "front" (.firstFrom 3), .hint "node" "front", .markLinks "node" 1, .bypass "node" 1,
    .insert 5 16 0]

/-- A handle owns a removal that is half done: its node is committed and not finished, off level 1
and still linked at level 0. -/
structure HalfDone (history : History) (session : Session PriorityQueue Handle) (handle : Handle) :
    Prop where
  named : session.handles.find? "node" = some handle
  owner : handle.owner = true
  pending : history.pending handle.node = true
  deleted : Deleted session.subject.pool handle.node
  off : session.subject.pool.linkOf handle.node 1 = Link.cleared
  linked : session.subject.pool.Linked 0 handle.node

theorem exists_halfRemoved : ∃ history session handle,
    followFromStart smallOptions halfRemoved = some (history, session) ∧
      HalfDone history session handle := by
  have found : ((followFromStart smallOptions halfRemoved).bind fun last =>
      (last.2.handles.find? "node").filter fun handle =>
        decide (handle.owner = true ∧ last.1.pending handle.node = true ∧
          Deleted last.2.subject.pool handle.node ∧
          last.2.subject.pool.linkOf handle.node 1 = Link.cleared ∧
          last.2.subject.pool.Linked 0 handle.node)).isSome = true := by
    decide +kernel
  obtain ⟨handle, same⟩ := Option.isSome_iff_exists.mp found
  obtain ⟨⟨history, session⟩, followed, rest⟩ := Option.bind_eq_some_iff.mp same
  obtain ⟨named, met⟩ := Option.filter_eq_some_iff.mp rest
  obtain ⟨owner, pending, deleted, off, linked⟩ := of_decide_eq_true met
  exact ⟨history, session, handle, followed, named, owner, pending, deleted, off, linked⟩

/-- The smallest entry may be removed while another removal is half done. -/
theorem steps_mean_halfRemoved : ∃ queue history session handle,
    ofOptions smallOptions = .ok queue ∧
      followFromStart smallOptions halfRemoved = some (history, session) ∧
      HalfDone history session handle ∧ (∀ key, contents queue key = none) ∧
      Ends (take .extractMin) session fun answer after =>
        Meaning session answer after smallOptions .extractMin ∧
          ∀ reason, answer = .refused reason → after = session := by
  obtain ⟨queue, made⟩ : ∃ queue, ofOptions smallOptions = .ok queue := ⟨_, rfl⟩
  obtain ⟨history, session, handle, followed, halfDone⟩ := exists_halfRemoved
  have means := steps_mean made
  exact ⟨queue, history, session, handle, made, followed, halfDone, means.1,
    means.2 history session (Reached.of_steps followed) .extractMin⟩

end PriorityQueue

end PooledContainers
