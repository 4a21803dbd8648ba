/-
A list and a queue of one capacity, driven by the same commands, agree at every command, whatever
the number of levels and the draws of the queue. Both keep to one account, the list with the first
payload of a key and the queue with the last; where no insert meets its key there is no other
payload than the one, and nothing tells the two apart.
-/

import PooledContainers.Proofs.PriorityQueue.Driving
import PooledContainers.Proofs.SortedList.Driving

namespace PooledContainers

open Operation

/-- From containers that keep to one account every command gets replies that agree. -/
theorem driveAll_ends {options : PriorityQueue.Options} (commands : List Command)
    {account : Account} {list : SortedList} {queue : PriorityQueue}
    (listDriven : SortedList.Driven options.capacity account list)
    (queueDriven : PriorityQueue.Driven options account queue) :
    Ends (driveAll commands) list fun (replies : List (Reply Int64)) _ =>
      Ends (driveAll commands) queue fun (others : List (Reply UInt64)) _ =>
        Throughout Agree account commands replies others ∧
          ((∀ index, (account.accepted index).length ≤ 1) →
            Throughout (fun account command _ _ => ¬ account.Meets command)
              account commands replies others →
            Throughout (fun _ _ => Identical) account commands replies others) := by
  induction commands generalizing account list queue with
  | nil => exact Ends.pure (Ends.pure ⟨trivial, fun _ _ => trivial⟩)
  | cons command rest inductionHypothesis =>
    obtain ⟨reply, listAfter, listRan, told, listDriven⟩ := listDriven.drive_ends command
    obtain ⟨other, queueAfter, queueRan, toldOther, queueDriven⟩ := queueDriven.drive_ends command
    have agree := told.agree toldOther
    rw [← agree.next_eq] at queueDriven
    refine Ends.bind (Ends.of_eq listRan (Ends.bind ?_))
    refine (inductionHypothesis listDriven queueDriven).imp fun replies _ tail => Ends.pure ?_
    refine Ends.bind (Ends.of_eq queueRan (Ends.bind ?_))
    refine tail.imp fun others _ later => Ends.pure ⟨⟨agree, later.1⟩, fun single fresh => ?_⟩
    exact ⟨told.identical toldOther single fresh.1,
      later.2 (Account.single_next single fresh.1 reply) fresh.2⟩

/-- A list and a queue that start empty with one capacity get replies that agree, command by
command, and identical ones as long as no insert meets a key that is there. -/
theorem containers_agree [NodeKind 1 SortedList.Entry]
    [NodeKind PriorityQueue.maxLevels PriorityQueue.Entry] {options : PriorityQueue.Options}
    {list : SortedList} {queue : PriorityQueue}
    (madeList : SortedList.ofCapacity options.capacity = .ok list)
    (madeQueue : PriorityQueue.ofOptions options = .ok queue) (commands : List Command) :
    Ends (driveAll commands) list fun (replies : List (Reply Int64)) _ =>
      Ends (driveAll commands) queue fun (others : List (Reply UInt64)) _ =>
        Throughout Agree Account.start commands replies others ∧
          (Throughout (fun account command _ _ => ¬ account.Meets command)
              Account.start commands replies others →
            Throughout (fun _ _ => Identical) Account.start commands replies others) := by
  have driven := driveAll_ends commands (SortedList.Driven.start madeList)
    (PriorityQueue.Driven.start madeQueue)
  exact driven.imp fun replies _ queueEnds => queueEnds.imp fun others _ agree =>
    ⟨agree.1, agree.2 fun _ => Nat.zero_le 1⟩

/-- Three entries, of which one is inserted twice, fill the containers; a fourth is refused, and
then the smallest are removed. -/
def fillAndDrain : List Command :=
  [.insert 7 16 1, .insert 7 24 0, .insert 3 8 1, .insert 5 8 0, .insert 9 8 0, .available,
    .extractMin, .extractMin, .extractMin, .length]

/-- The containers agree while they fill and drain. -/
theorem containers_agree_fillAndDrain : ∃ list queue,
    SortedList.ofCapacity PriorityQueue.smallOptions.capacity = .ok list ∧
      PriorityQueue.ofOptions PriorityQueue.smallOptions = .ok queue ∧
      Ends (driveAll fillAndDrain) list fun (replies : List (Reply Int64)) _ =>
        Ends (driveAll fillAndDrain) queue fun (others : List (Reply UInt64)) _ =>
          Throughout Agree Account.start fillAndDrain replies others := by
  obtain ⟨list, madeList⟩ :
      ∃ list, SortedList.ofCapacity PriorityQueue.smallOptions.capacity = .ok list := ⟨_, rfl⟩
  obtain ⟨queue, madeQueue⟩ :
      ∃ queue, PriorityQueue.ofOptions PriorityQueue.smallOptions = .ok queue := ⟨_, rfl⟩
  exact ⟨list, queue, madeList, madeQueue, (containers_agree madeList madeQueue fillAndDrain).imp
    fun _ _ queueEnds => queueEnds.imp fun _ _ agree => agree.1⟩

end PooledContainers
