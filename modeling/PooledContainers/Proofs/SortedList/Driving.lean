/-
A list that is driven by index. No handle is kept on it, so that every node is an entry or free, and
what it holds under a key is the first payload that it accepted.
-/

import PooledContainers.Proofs.Driving
import PooledContainers.Proofs.SortedList.Counts

namespace PooledContainers

namespace SortedList

open Holdings Operation Session

instance : IndexKey (OrderedContainer.Key SortedList) := inferInstanceAs (IndexKey Int64)

instance : DecidableEq (OrderedContainer.Key SortedList) := inferInstanceAs (DecidableEq Int64)

/-- A list on which no handle is kept holds what the account says. -/
structure Driven (capacity : UInt64) (account : Account) (list : SortedList) : Prop where
  inOrder : ∃ pending, InOrder capacity pending (Session.start list)
  kept : Kept .keep account (contents list) list.balance

/-! ### How the balance changes -/

namespace InOrder

variable {capacity : UInt64} {pending : Nat → Bool} {session after : Session SortedList Handle}
  {key : Int64} {payload : UInt64}

theorem balance_nonneg (inOrder : InOrder capacity pending session) :
    0 ≤ session.subject.balance := by
  rw [inOrder.balance]
  exact Int.natCast_nonneg _

theorem balance_same (inOrder : InOrder capacity pending session)
    (later : InOrder capacity pending after) :
    after.subject.balance = session.subject.balance := by
  rw [later.balance, inOrder.balance, later.size, inOrder.size]

/-- A new entry takes a free slot, whose removal is pending from then on. -/
theorem balance_inserted (inOrder : InOrder capacity pending session)
    (later : InOrder capacity
      (nextPending pending session (.insert key payload) (.insertion (.ok .inserted))) after)
    (some : session.subject.available ≠ .ok 0) :
    after.subject.balance = session.subject.balance + 1 := by
  obtain ⟨line, free, consistent⟩ := inOrder.consistent
  cases free with
  | nil => exact absurd (available_eq consistent) some
  | cons slot rest =>
    obtain ⟨inside, -, notPending, -⟩ := consistent.mem_free_iff_idle.mp List.mem_cons_self
    have next : nextPending pending session (.insert key payload) (.insertion (.ok .inserted)) =
        await pending slot := by
      unfold nextPending
      rw [consistent.accounted.freeHead_slot?]
      rfl
    rw [next] at later
    rw [later.balance, inOrder.balance, later.size, ← inOrder.size,
      length_pendingBelow_await notPending inside]
    rfl

/-- The removal of an entry finishes the node that holds it. -/
theorem balance_extracted (inOrder : InOrder capacity pending session)
    (later : InOrder capacity
      (nextPending pending session .extractMin (.entry (some (key, payload)))) after)
    (present : contents session.subject key = some payload) :
    after.subject.balance = session.subject.balance + -1 := by
  obtain ⟨line, free, consistent⟩ := inOrder.consistent
  obtain ⟨slot, live, rfl, -⟩ := (contents_eq_some_iff consistent).mp present
  have isPending := ((consistent.live_iff slot).mp live).1
  have next : nextPending pending session .extractMin
      (.entry (some (keyOf session.subject.pool slot, payload))) = finish pending slot :=
    finish?_liveSlot? consistent live
  rw [next] at later
  rw [later.balance, inOrder.balance, later.size, ← inOrder.size]
  exact inOrder.counted_finish isPending

end InOrder

/-! ### One command after another -/

namespace Driven

variable {capacity : UInt64} {account : Account} {list : SortedList}

theorem start [NodeKind 1 Entry] (made : ofCapacity capacity = .ok list) :
    Driven capacity Account.start list := by
  have inOrder := inOrder_start made
  obtain ⟨line, free, consistent⟩ := inOrder.consistent
  have empty : ∀ key, contents list key = none := fun key =>
    contents_eq_none_iff.mpr fun slot live _ =>
      absurd ((consistent.live_iff slot).mp live).1 Bool.false_ne_true
  exact ⟨⟨_, inOrder⟩, fun index => empty _, fun key present => absurd (empty key) present,
    (ofCapacity_eq_ok made).2.1⟩

/-- The nodes that are no entries are free. -/
theorem figures (driven : Driven capacity account list) : list.capacity = capacity ∧
    list.length = account.count ∧ account.count ≤ capacity.toNat ∧
      list.available = .ok (capacity.toNat - account.count) := by
  obtain ⟨pending, inOrder⟩ := driven.inOrder
  obtain ⟨free, counted⟩ := inOrder.counted
  have length : list.length = account.count := by
    unfold SortedList.length
    rw [driven.kept.balance]
    rfl
  have sameCapacity : list.capacity = capacity := inOrder.capacity
  have whole : free.length + list.length = list.capacity.toNat := (counted.settled rfl).1
  have available : list.available = .ok free.length := counted.available
  rw [length, sameCapacity] at whole
  exact ⟨sameCapacity, length, by omega, by rw [available]; congr 1; omega⟩

theorem insert_ends (driven : Driven capacity account list) (index : UInt32) (payload : UInt64)
    (coins : Nat) : Ends (insert (IndexKey.ofIndex index) payload) list fun outcome after =>
      outcome = DuplicatePolicy.keep.outcome capacity account index payload ∧
        Driven capacity (account.next (.insert index payload coins)
          (.insertion outcome : Reply Int64)) after := by
  obtain ⟨pending, inOrder⟩ := driven.inOrder
  obtain ⟨-, -, fits, available⟩ := driven.figures
  refine (ends_of_act (inOrder.insert_ends (IndexKey.ofIndex index) payload)).imp
    fun outcome after done => ?_
  have stays := done.inOrder
  have means : InsertMeans (Session.start list) (.insertion outcome) ⟨after, HandleTable.empty⟩
    capacity.toNat (IndexKey.ofIndex index) payload := done.means
  suffices inserts : Inserts .keep capacity account index payload (contents list) list.balance
      outcome (contents after) after.balance by
    obtain ⟨told, kept⟩ := driven.kept.inserts inserts coins
    exact ⟨told, ⟨_, stays⟩, kept⟩
  by_cases misaligned : payload % alignment ≠ 0
  · obtain ⟨answered, same⟩ := means.misaligned misaligned
    obtain rfl := Answer.insertion.inj answered
    obtain rfl : after = list := congrArg Session.subject same
    exact Inserts.misaligned misaligned
  have aligned := not_not.mp misaligned
  by_cases full : account.count = capacity.toNat
  · have noneFree : list.available = .ok 0 := by rw [available, full, Nat.sub_self]
    obtain ⟨answered, same⟩ := means.full aligned noneFree
    obtain rfl := Answer.insertion.inj answered
    obtain rfl : after = list := congrArg Session.subject same
    exact Inserts.full aligned full
  have someFree : list.available ≠ .ok 0 := fun none => by
    have free := Except.ok.inj (available.symm.trans none)
    omega
  cases held : contents list (IndexKey.ofIndex index) with
  | some present =>
    have there : contents list (IndexKey.ofIndex index) ≠ none := by
      rw [held]
      exact Option.some_ne_none present
    obtain ⟨answered, same, -⟩ := means.duplicate aligned someFree there
    obtain rfl := Answer.insertion.inj answered
    have balance : after.balance = list.balance := inOrder.balance_same stays
    have unchanged : contents after =
        Function.update (contents list) (IndexKey.ofIndex index) (some present) := by
      rw [← held, Function.update_eq_self]
      exact same
    rw [unchanged, balance]
    exact Inserts.present aligned full held
  | none =>
    obtain ⟨answered, added⟩ := means.inserted aligned someFree held
    obtain rfl := Answer.insertion.inj answered
    have balance : after.balance = list.balance + 1 := inOrder.balance_inserted stays someFree
    rw [show contents after = _ from added, balance]
    exact Inserts.absent aligned full held

theorem extractMin_ends (driven : Driven capacity account list) :
    Ends extractMin list fun found after =>
      Told .keep capacity account .extractMin (.entry found : Reply Int64) ∧
        Driven capacity (account.next .extractMin (.entry found : Reply Int64)) after := by
  obtain ⟨pending, inOrder⟩ := driven.inOrder
  refine (ends_of_act inOrder.extractMin_ends).imp fun found after done => ?_
  have stays := done.inOrder
  obtain ⟨_, answered, means⟩ := done.means
  obtain rfl := Answer.entry.inj answered
  cases means with
  | none empty same =>
    have sameContents : contents after = contents list := same
    have balance : after.balance = list.balance := inOrder.balance_same stays
    exact ⟨Told.drained (driven.kept.accepted_eq_nil empty), ⟨_, stays⟩,
      by rw [sameContents, balance]; exact driven.kept⟩
  | some key payload holds least removed =>
    obtain ⟨index, rfl, told⟩ := driven.kept.told_extracted capacity holds least
    have kept := driven.kept.removed index stays.balance_nonneg
      (inOrder.balance_extracted stays holds)
    exact ⟨told, ⟨_, stays⟩, removed ▸ kept⟩

/-- The reply to any command is told by the account, which is kept up. -/
theorem drive_ends (driven : Driven capacity account list) (command : Command) :
    Ends (drive command) list fun (reply : Reply Int64) after =>
      Told .keep capacity account command reply ∧
        Driven capacity (account.next command reply) after := by
  obtain ⟨sameCapacity, length, -, available⟩ := driven.figures
  exact PooledContainers.drive_ends (Driven capacity) driven sameCapacity length available
    driven.insert_ends driven.extractMin_ends command

end Driven

end SortedList

end PooledContainers
