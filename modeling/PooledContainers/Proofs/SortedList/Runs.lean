/-
All runs of a list. A list starts in order and every step keeps it so, whatever was left half done
before. Hence a list is a map from keys to payloads that starts empty and changes as the steps mean.
-/

import PooledContainers.Proofs.SortedList.Operating
import PooledContainers.Proofs.SortedList.Start

namespace PooledContainers

namespace SortedList

open Operation Pool

variable {capacity : UInt64} {pending : Nat → Bool} {session : Session SortedList Handle}

/-! ### Runs stay in order -/

/-- An empty list is in order. -/
theorem inOrder_start [NodeKind 1 Entry] {list : SortedList}
    (made : ofCapacity capacity = .ok list) :
    InOrder capacity (fun _ => false) (Session.start list) := by
  obtain ⟨sameCapacity, balance, size, free, consistent⟩ := ofCapacity_eq_ok made
  refine ⟨⟨[], free, consistent.congr fun _ => rfl⟩, HandleTable.Kept.empty, size, sameCapacity, ?_⟩
  show list.balance = ((pendingBelow (fun _ => false) list.pool.size).length : Int)
  have none : pendingBelow (fun _ => false) list.pool.size = [] :=
    List.filter_eq_nil_iff.mpr fun _ _ => Bool.false_ne_true
  rw [balance, none]
  rfl

/-- Every session of a run is in order. -/
theorem Reached.inOrder (reached : Reached capacity pending session) :
    InOrder capacity pending session := by
  induction reached with
  | start made => exact inOrder_start made
  | step before taken inductionHypothesis =>
    exact ((inductionHypothesis.take_ends _).of_ran taken).inOrder

/-! ### A list as a map -/

/-- A list holds nothing at first. From then on every step of a run has an answer, and the answer
and what the list holds afterwards are as the step means; a step that is refused changes nothing at
all. -/
theorem answers_mean [NodeKind 1 Entry] {list : SortedList}
    (made : ofCapacity capacity = .ok list) :
    (∀ key, contents list key = none) ∧
      ∀ pending session, Reached capacity pending session → ∀ step,
        Ends (take step) session fun answer after =>
          Meaning session answer after capacity step ∧
            ∀ reason, answer = .refused reason → after = session := by
  constructor
  · intro key
    obtain ⟨line, free, consistent⟩ := (inOrder_start made).consistent
    refine contents_eq_none_iff.mpr fun slot live _ => ?_
    exact absurd ((consistent.live_iff slot).mp live).1 Bool.false_ne_true
  · intro pending session reached step
    exact (reached.inOrder.take_ends step).imp fun answer after moved =>
      ⟨moved.means, moved.refused⟩

/-! ### Removals left half done -/

/-- Two entries are inserted, and the removal of the second is left half done: found by two handles,
and marked by one of them. Its key is then inserted anew, which takes the marked node off the
list. -/
def halfRemoved : List Step :=
  [.insert 3 24, .insert 5 8, .search "owner" 5, .search "helper" 5, .mark "owner", .insert 5 16]

/-- A handle owns a removal that is half done: its node is off the list and not finished, and its
key was inserted anew. -/
structure HalfDone (pending : Nat → Bool) (session : Session SortedList Handle)
    (handle : Handle) : Prop where
  named : session.handles.find? "owner" = some handle
  owner : handle.owner = true
  pending : pending handle.node = true
  off : session.subject.pool.linkOf handle.node 0 = Link.cleared
  renewed : ∃ newer, liveSlot? session.subject.pool (keyOf session.subject.pool handle.node) =
    some newer

theorem exists_halfRemoved : ∃ pending session handle,
    followFromStart 3 halfRemoved = some (pending, session) ∧
      HalfDone pending session handle := by
  have found : ((followFromStart 3 halfRemoved).bind fun last =>
      (last.2.handles.find? "owner").filter fun handle =>
        decide (handle.owner = true ∧ last.1 handle.node = true ∧
          last.2.subject.pool.linkOf handle.node 0 = Link.cleared ∧
          (liveSlot? last.2.subject.pool
            (keyOf last.2.subject.pool handle.node)).isSome = true)).isSome = true := by
    decide +kernel
  obtain ⟨handle, same⟩ := Option.isSome_iff_exists.mp found
  obtain ⟨⟨pending, session⟩, followed, rest⟩ := Option.bind_eq_some_iff.mp same
  obtain ⟨named, met⟩ := Option.filter_eq_some_iff.mp rest
  obtain ⟨owner, isPending, off, newer⟩ := of_decide_eq_true met
  exact ⟨pending, session, handle, followed, named, owner, isPending, off,
    Option.isSome_iff_exists.mp newer⟩

/-- The removal that is half done may be completed. -/
theorem answers_mean_halfRemoved : ∃ list pending session handle,
    ofCapacity 3 = .ok list ∧ followFromStart 3 halfRemoved = some (pending, session) ∧
      HalfDone pending session handle ∧ (∀ key, contents list key = none) ∧
      Ends (take (.complete "owner")) session fun answer after =>
        Meaning session answer after 3 (.complete "owner") ∧
          ∀ reason, answer = .refused reason → after = session := by
  obtain ⟨list, made⟩ : ∃ list, ofCapacity 3 = .ok list := ⟨_, rfl⟩
  obtain ⟨pending, session, handle, followed, halfDone⟩ := exists_halfRemoved
  have means := answers_mean made
  exact ⟨list, pending, session, handle, made, followed, halfDone, means.1,
    means.2 pending session (Reached.of_steps followed) (.complete "owner")⟩

/-- Of four entries all but the first are found and marked, the last of them under the last key of
all. -/
def markedToEnd : List Step :=
  [.insert 1 8, .insert 5 16, .insert 6 24, .insert 9223372036854775807 32, .search "fifth" 5,
    .search "sixth" 6, .search "last" 9223372036854775807, .mark "fifth", .mark "sixth",
    .mark "last"]

theorem exists_markedToEnd : ∃ pending session last,
    followFromStart 4 markedToEnd = some (pending, session) ∧
      session.handles.find? "last" = some last ∧
      keyAfter? (keyOf session.subject.pool last.node) = none ∧
      session.subject.pool.Linked 0 last.node ∧ Marked session.subject.pool last.node := by
  have found : ((followFromStart 4 markedToEnd).bind fun reached =>
      (reached.2.handles.find? "last").filter fun last =>
        decide (keyAfter? (keyOf reached.2.subject.pool last.node) = none ∧
          reached.2.subject.pool.Linked 0 last.node ∧
          Marked reached.2.subject.pool last.node)).isSome = true := by
    decide +kernel
  obtain ⟨last, same⟩ := Option.isSome_iff_exists.mp found
  obtain ⟨⟨pending, session⟩, followed, rest⟩ := Option.bind_eq_some_iff.mp same
  obtain ⟨named, met⟩ := Option.filter_eq_some_iff.mp rest
  exact ⟨pending, session, last, followed, named, of_decide_eq_true met⟩

end SortedList

end PooledContainers
