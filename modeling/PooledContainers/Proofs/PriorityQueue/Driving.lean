/-
A queue that is driven by index. No handle is kept on it and no removal is left half done, so that
every node is a live entry or free, and what it holds under a key is the last payload that it
accepted.
-/

import PooledContainers.Proofs.Driving
import PooledContainers.Proofs.PriorityQueue.Counts

namespace PooledContainers

namespace PriorityQueue

open Holdings Line Operation Session

instance : IndexKey (OrderedContainer.Key PriorityQueue) := inferInstanceAs (IndexKey UInt64)

instance : DecidableEq (OrderedContainer.Key PriorityQueue) :=
  inferInstanceAs (DecidableEq UInt64)

/-- A session without handles in which just the live nodes are pending. -/
structure AtRest (options : Options) (history : History) (queue : PriorityQueue) : Prop where
  inOrder : ∃ line free, InOrder options history (Session.start queue) line free
  allLive : (pendingBelow history.pending queue.pool.size).length =
    (liveSlots queue.pool).length

/-- A queue at rest holds what the account says. -/
structure Driven (options : Options) (account : Account) (queue : PriorityQueue) : Prop where
  atRest : ∃ history, AtRest options history queue
  kept : Kept .replace account (contents queue) queue.balance

/-! ### How the live nodes and the pending ones change -/

namespace InOrder

variable {options : Options} {history : History} {session : Session PriorityQueue Handle}
  {line free : List Nat} {key payload : UInt64}

/-- A new entry takes a free slot, whose removal is pending from then on. -/
theorem length_pending_inserted (inOrder : InOrder options history session line free)
    (some : session.subject.available ≠ .ok 0) (coins : Nat) :
    (pendingBelow (history.next session (.insert key payload coins)
      (.insertion (.ok .inserted))).pending session.subject.pool.size).length =
        (pendingBelow history.pending session.subject.pool.size).length + 1 := by
  cases free with
  | nil => exact absurd inOrder.available_eq some
  | cons slot rest =>
    have accounted := inOrder.consistent.accounted
    have inside := accounted.inside slot List.mem_cons_self
    have none := (accounted.free_iff slot inside).mp List.mem_cons_self
    have notPending := (of_placeCount_eq_zero
      (show placeCount history.pending slot = 0 by omega)).2
    rw [next_insert inOrder.first_free.1]
    exact length_pendingBelow_await notPending inside

/-- The removal of an entry finishes the node that holds it. -/
theorem length_pending_removed (inOrder : InOrder options history session line free)
    (present : contents session.subject key = some payload) :
    (pendingBelow history.pending session.subject.pool.size).length =
      (pendingBelow (history.next session .extractMin (.entry (some (key, payload)))).pending
        session.subject.pool.size).length + 1 := by
  obtain ⟨slot, live, rfl, -⟩ := (contents_eq_some_iff inOrder.consistent).mp present
  rw [inOrder.next_extractMin live]
  exact length_pendingBelow_finish (inOrder.pending_of_live live) live.1.2.1

end InOrder

namespace AtRest

variable {options : Options} {history later : History} {queue after : PriorityQueue}
  {key payload : UInt64} (atRest : AtRest options history queue)
  (stays : ∃ line free, InOrder options later (Session.start after) line free)

include atRest

/-- No removal is left half done in a queue at rest. -/
theorem finished : ∀ slot ∈ committedSlots queue.pool, history.pending slot = false := by
  obtain ⟨line, free, inOrder⟩ := atRest.inOrder
  have part : ∀ slot ∈ liveSlots queue.pool,
      slot ∈ pendingBelow history.pending queue.pool.size := fun slot member =>
    have live := mem_liveSlots.mp member
    mem_pendingBelow.mpr ⟨live.1.2.1, inOrder.pending_of_live live⟩
  have permuted : (liveSlots queue.pool).Perm (pendingBelow history.pending queue.pool.size) :=
    (List.subperm_of_subset (nodup_liveSlots _) part).perm_of_length_le
      (Nat.le_of_eq atRest.allLive)
  intro slot committed
  obtain ⟨inserted, dead⟩ := mem_committedSlots.mp committed
  refine Bool.eq_false_iff.mpr fun isPending => ?_
  have member := permuted.mem_iff.mpr (mem_pendingBelow.mpr ⟨inserted.2.1, isPending⟩)
  exact (mem_liveSlots.mp member).2 dead

include stays

/-- A queue comes to rest with as many entries more as removals pending. -/
theorem of_lengths {change : Int}
    (live : ((liveSlots after.pool).length : Int) = (liveSlots queue.pool).length + change)
    (pending : ((pendingBelow later.pending queue.pool.size).length : Int) =
      (pendingBelow history.pending queue.pool.size).length + change) :
    AtRest options later after ∧ after.balance = queue.balance + change := by
  obtain ⟨line, free, inOrder⟩ := atRest.inOrder
  obtain ⟨laterLine, laterFree, laterInOrder⟩ := stays
  have size : after.pool.size = queue.pool.size := laterInOrder.size.trans inOrder.size.symm
  have allLive := atRest.allLive
  have balance : queue.balance = (liveSlots queue.pool).length := inOrder.balance
  have laterBalance : after.balance = (liveSlots after.pool).length := laterInOrder.balance
  refine ⟨⟨⟨laterLine, laterFree, laterInOrder⟩, ?_⟩, by omega⟩
  rw [size]
  omega

/-- What is held under the keys has changed, but not under which of them something is held. -/
theorem altered (same : later = history)
    (keys : ∀ key, contents after key = none ↔ contents queue key = none) :
    AtRest options later after ∧ after.balance = queue.balance := by
  subst same
  obtain ⟨line, free, inOrder⟩ := atRest.inOrder
  obtain ⟨laterLine, laterFree, laterInOrder⟩ := stays
  have live := Holdings.length_eq_of_lookup inOrder.consistent.distinct_live
    laterInOrder.consistent.distinct_live (nodup_liveSlots _) (nodup_liveSlots _) keys
  have both := atRest.of_lengths ⟨laterLine, laterFree, laterInOrder⟩
    (show _ = _ + (0 : Int) from (congrArg Int.ofNat live).trans (Int.add_zero _).symm)
    (Int.add_zero _).symm
  exact ⟨both.1, both.2.trans (Int.add_zero _)⟩

/-- One more key is held. -/
theorem inserted (room : queue.available ≠ .ok 0) {coins : Nat}
    (next : later = history.next (Session.start queue) (.insert key payload coins)
      (.insertion (.ok .inserted)))
    (absent : contents queue key = none)
    (added : contents after = Function.update (contents queue) key (some payload)) :
    AtRest options later after ∧ after.balance = queue.balance + 1 := by
  subst next
  obtain ⟨line, free, inOrder⟩ := atRest.inOrder
  obtain ⟨laterLine, laterFree, laterInOrder⟩ := stays
  have live := Holdings.length_succ_of_lookup inOrder.consistent.distinct_live
    laterInOrder.consistent.distinct_live (nodup_liveSlots _) (nodup_liveSlots _) absent added
  exact atRest.of_lengths ⟨laterLine, laterFree, laterInOrder⟩ (congrArg Int.ofNat live)
    (congrArg Int.ofNat (inOrder.length_pending_inserted room coins))

/-- One key less is held. -/
theorem removed
    (next : later = history.next (Session.start queue) .extractMin (.entry (some (key, payload))))
    (present : contents queue key = some payload)
    (gone : contents after = Function.update (contents queue) key none) :
    AtRest options later after ∧ after.balance = queue.balance + -1 := by
  subst next
  obtain ⟨line, free, inOrder⟩ := atRest.inOrder
  obtain ⟨laterLine, laterFree, laterInOrder⟩ := stays
  have absent : contents after key = none := by rw [gone, Function.update_self]
  have more : contents queue = Function.update (contents after) key (some payload) := by
    rw [gone, Function.update_idem, ← present, Function.update_eq_self]
  have live : (liveSlots queue.pool).length = (liveSlots after.pool).length + 1 :=
    Holdings.length_succ_of_lookup laterInOrder.consistent.distinct_live
      inOrder.consistent.distinct_live (nodup_liveSlots _) (nodup_liveSlots _) absent more
  have pending : (pendingBelow history.pending queue.pool.size).length =
      (pendingBelow _ queue.pool.size).length + 1 := inOrder.length_pending_removed present
  exact atRest.of_lengths ⟨laterLine, laterFree, laterInOrder⟩ (by omega) (by omega)

end AtRest

/-! ### One command after another -/

namespace Driven

variable {options : Options} {account : Account} {queue : PriorityQueue}

theorem start [NodeKind maxLevels Entry] (made : ofOptions options = .ok queue) :
    Driven options Account.start queue := by
  obtain ⟨free, inOrder⟩ := inOrder_start made
  have balance : queue.balance = 0 := (ofOptions_eq_ok made).2.2.1
  have counted : queue.balance = (liveSlots queue.pool).length := inOrder.balance
  have noneLive : liveSlots queue.pool = [] := List.eq_nil_of_length_eq_zero (by omega)
  have empty : ∀ key, contents queue key = none := fun key =>
    contents_eq_none_iff.mpr fun slot live => by
      have member := mem_liveSlots.mpr live
      rw [noneLive] at member
      exact absurd member List.not_mem_nil
  refine ⟨⟨History.start, ⟨[], free, inOrder⟩, ?_⟩, fun index => empty _, fun key present =>
    absurd (empty key) present, balance⟩
  have nonePending : pendingBelow History.start.pending queue.pool.size = [] :=
    List.filter_eq_nil_iff.mpr fun _ _ => Bool.false_ne_true
  rw [nonePending, noneLive]

/-- The nodes that are no entries are free. -/
theorem figures (driven : Driven options account queue) : queue.capacity = options.capacity ∧
    queue.length = account.count ∧ account.count ≤ options.capacity.toNat ∧
      queue.available = .ok (options.capacity.toNat - account.count) := by
  obtain ⟨history, atRest⟩ := driven.atRest
  obtain ⟨line, free, inOrder⟩ := atRest.inOrder
  have counted := inOrder.counted
  have length : queue.length = account.count := by
    unfold PriorityQueue.length
    rw [driven.kept.balance]
    rfl
  have sameCapacity : queue.capacity = options.capacity := inOrder.capacity
  have whole : free.length + queue.length = queue.capacity.toNat :=
    (counted.settled atRest.finished rfl).1
  have available : queue.available = .ok free.length := counted.available
  rw [length, sameCapacity] at whole
  exact ⟨sameCapacity, length, by omega, by rw [available]; congr 1; omega⟩

theorem insert_ends (driven : Driven options account queue) (index : UInt32) (payload : UInt64)
    (coins : Nat) : Ends (insert (IndexKey.ofIndex index) payload coins) queue fun outcome after =>
      outcome = DuplicatePolicy.replace.outcome options.capacity account index payload ∧
        Driven options
          (account.next (.insert index payload coins) (.insertion outcome : Reply UInt64))
          after := by
  obtain ⟨history, atRest⟩ := driven.atRest
  obtain ⟨line, free, inOrder⟩ := atRest.inOrder
  obtain ⟨-, -, fits, available⟩ := driven.figures
  refine (ends_of_act (inOrder.insert_ends (IndexKey.ofIndex index) payload coins)).imp
    fun outcome after done => ?_
  have stays := done.inOrder
  have means : InsertMeans (Session.start queue) (.insertion outcome) ⟨after, HandleTable.empty⟩
    options.capacity.toNat (IndexKey.ofIndex index) payload := done.means
  suffices both : Inserts .replace options.capacity account index payload (contents queue)
      queue.balance outcome (contents after) after.balance ∧ ∃ later, AtRest options later after by
    obtain ⟨told, kept⟩ := driven.kept.inserts both.1 coins
    exact ⟨told, both.2, kept⟩
  by_cases misaligned : payload % alignment ≠ 0
  · obtain ⟨answered, same⟩ := means.misaligned misaligned
    obtain rfl := Answer.insertion.inj answered
    obtain rfl : after = queue := congrArg Session.subject same
    exact ⟨Inserts.misaligned misaligned, history, atRest⟩
  have aligned := not_not.mp misaligned
  by_cases full : account.count = options.capacity.toNat
  · have noneFree : queue.available = .ok 0 := by rw [available, full, Nat.sub_self]
    obtain ⟨answered, same⟩ := means.full aligned noneFree
    obtain rfl := Answer.insertion.inj answered
    obtain rfl : after = queue := congrArg Session.subject same
    exact ⟨Inserts.full aligned full, history, atRest⟩
  have someFree : queue.available ≠ .ok 0 := fun none => by
    have free := Except.ok.inj (available.symm.trans none)
    omega
  cases held : contents queue (IndexKey.ofIndex index) with
  | some present =>
    obtain ⟨answered, changed⟩ := means.replaced aligned someFree present held
    obtain rfl := Answer.insertion.inj answered
    replace changed : contents after =
      Function.update (contents queue) (IndexKey.ofIndex index) (some payload) := changed
    obtain ⟨rest, balance⟩ := atRest.altered stays rfl fun key => by
      rw [changed]
      by_cases same : key = IndexKey.ofIndex index
      · rw [same, Function.update_self, held]
        exact iff_of_false (Option.some_ne_none _) (Option.some_ne_none _)
      · rw [Function.update_of_ne same]
    rw [changed, balance]
    exact ⟨Inserts.present aligned full held, _, rest⟩
  | none =>
    obtain ⟨answered, added⟩ := means.inserted aligned someFree held
    obtain rfl := Answer.insertion.inj answered
    replace added : contents after =
      Function.update (contents queue) (IndexKey.ofIndex index) (some payload) := added
    obtain ⟨rest, balance⟩ := atRest.inserted stays someFree rfl held added
    rw [added, balance]
    exact ⟨Inserts.absent aligned full held, _, rest⟩

theorem extractMin_ends (driven : Driven options account queue) :
    Ends extractMin queue fun found after =>
      Told .replace options.capacity account .extractMin (.entry found : Reply UInt64) ∧
        Driven options (account.next .extractMin (.entry found : Reply UInt64)) after := by
  obtain ⟨history, atRest⟩ := driven.atRest
  obtain ⟨line, free, inOrder⟩ := atRest.inOrder
  refine (ends_of_act inOrder.extractMin_ends).imp fun found after done => ?_
  obtain ⟨stays, ⟨_, answered, means⟩, -⟩ := done
  obtain rfl := Answer.entry.inj answered
  have nonneg : 0 ≤ after.balance := by
    obtain ⟨laterLine, laterFree, laterInOrder⟩ := stays
    have balance : after.balance = (liveSlots after.pool).length := laterInOrder.balance
    omega
  cases means with
  | none empty same =>
    have sameContents : contents after = contents queue := same
    obtain ⟨rest, balance⟩ := atRest.altered stays rfl fun key => by rw [sameContents]
    exact ⟨Told.drained (driven.kept.accepted_eq_nil empty), ⟨_, rest⟩,
      by rw [sameContents, balance]; exact driven.kept⟩
  | some key payload holds least removed =>
    obtain ⟨index, rfl, told⟩ := driven.kept.told_extracted options.capacity holds least
    obtain ⟨rest, balance⟩ := atRest.removed stays rfl holds removed
    exact ⟨told, ⟨_, rest⟩, removed ▸ driven.kept.removed index nonneg balance⟩

/-- The reply to any command is told by the account, which is kept up. -/
theorem drive_ends (driven : Driven options account queue) (command : Command) :
    Ends (drive command) queue fun (reply : Reply UInt64) after =>
      Told .replace options.capacity account command reply ∧
        Driven options (account.next command reply) after := by
  obtain ⟨sameCapacity, length, -, available⟩ := driven.figures
  exact PooledContainers.drive_ends (Driven options) driven sameCapacity length available
    driven.insert_ends driven.extractMin_ends command

end Driven

end PriorityQueue

end PooledContainers
