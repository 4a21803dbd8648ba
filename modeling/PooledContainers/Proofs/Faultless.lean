/-
No run faults. Each fault stands for one thing that the containers take for granted: that a count
given up was there, that the free list offers claimed nodes only, that a node to be unlinked is
marked, that a node is used at levels which it reaches, that every slot named is one of the pool and
one that a link can name. That a step has an answer says that none of these was missed on the way,
and the balance of a container keeps between nothing and its capacity.
-/

import PooledContainers.Proofs.PriorityQueue.Counts
import PooledContainers.Proofs.SortedList.Counts

namespace PooledContainers

open Operation

/-- A container has a node for each entry that fits and two for the sentinels, and its balance is a
number of entries that fit. -/
structure Bounded {levels : Nat} {Body : Type} (capacity : UInt64) (pool : Pool levels Body)
    (balance : Int) : Prop where
  size : pool.size = capacity.toNat + sentinelCount
  nonneg : 0 ≤ balance
  fits : balance ≤ capacity.toNat

theorem SortedList.InOrder.bounded {capacity : UInt64} {pending : Nat → Bool}
    {session : Session SortedList SortedList.Handle}
    (inOrder : SortedList.InOrder capacity pending session) :
    Bounded capacity session.subject.pool session.subject.balance := by
  obtain ⟨line, free, consistent⟩ := inOrder.consistent
  have whole := SortedList.InOrder.length_parts consistent
  have size := inOrder.size
  have balance := inOrder.balance
  exact ⟨size, by omega, by omega⟩

theorem PriorityQueue.InOrder.bounded {options : PriorityQueue.Options}
    {history : PriorityQueue.History} {session : Session PriorityQueue PriorityQueue.Handle}
    {line free : List Nat} (inOrder : PriorityQueue.InOrder options history session line free) :
    Bounded options.capacity session.subject.pool session.subject.balance := by
  have whole := inOrder.consistent.length_add
  have parts := inOrder.consistent.length_line
  have size := inOrder.size
  have balance := inOrder.balance
  exact ⟨size, by omega, by omega⟩

/-- Whatever a run has come to, with removals left half done at any stage, the balance is within
bounds and no step faults. The steps of a list may be taken as they are, those of a queue with hints
that lead towards the head. -/
theorem runs_without_faults (capacity : UInt64) (options : PriorityQueue.Options) :
    (∀ pending session, SortedList.Reached capacity pending session →
      Bounded capacity session.subject.pool session.subject.balance ∧
        ∀ step fault, SortedList.take step session ≠ .error fault) ∧
    (∀ history session, PriorityQueue.Reached options history session →
      Bounded options.capacity session.subject.pool session.subject.balance ∧
        ∀ step fault, PriorityQueue.take step session ≠ .error fault) := by
  constructor
  · intro pending session reached
    exact ⟨reached.inOrder.bounded, fun step fault =>
      (reached.inOrder.take_ends step).ne_error fault⟩
  · intro history session reached
    obtain ⟨line, free, inOrder⟩ := reached.inOrder
    exact ⟨inOrder.bounded, fun step fault => (inOrder.take_ends step).ne_error fault⟩

/-- No step faults while a removal is half done. -/
theorem runs_without_faults_halfRemoved :
    (∃ pending session handle,
      SortedList.followFromStart 3 SortedList.halfRemoved = some (pending, session) ∧
        SortedList.HalfDone pending session handle ∧
        Bounded 3 session.subject.pool session.subject.balance ∧
        ∀ step fault, SortedList.take step session ≠ .error fault) ∧
    (∃ history session handle, PriorityQueue.followFromStart PriorityQueue.smallOptions
        PriorityQueue.halfRemoved = some (history, session) ∧
        PriorityQueue.HalfDone history session handle ∧
        Bounded PriorityQueue.smallOptions.capacity session.subject.pool session.subject.balance ∧
        ∀ step fault, PriorityQueue.take step session ≠ .error fault) := by
  obtain ⟨list, queue⟩ := runs_without_faults 3 PriorityQueue.smallOptions
  constructor
  · obtain ⟨pending, session, handle, followed, halfDone⟩ := SortedList.exists_halfRemoved
    exact ⟨pending, session, handle, followed, halfDone,
      list pending session (SortedList.Reached.of_steps followed)⟩
  · obtain ⟨history, session, handle, followed, halfDone⟩ := PriorityQueue.exists_halfRemoved
    exact ⟨history, session, handle, followed, halfDone,
      queue history session (PriorityQueue.Reached.of_steps followed)⟩

end PooledContainers
