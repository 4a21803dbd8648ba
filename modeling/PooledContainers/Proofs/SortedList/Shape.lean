/-
The shape of a list. It is a chain from the head to the tail in strictly ascending order of the
keys, marked nodes among them, and it has just the nodes that were not taken off it. A node comes on
the list only from the free list and by an insert, so that what was taken off never comes back.
-/

import Mathlib.Data.List.Sort
import PooledContainers.Proofs.SortedList.Counts

namespace PooledContainers

namespace SortedList

open Line Operation Pool

/-! ### The chain -/

/-- A slot holds a node that was inserted and has not been reclaimed: it is no sentinel, and its
counter carries no claim. -/
def Inserted (pool : Pool 1 Entry) (slot : Nat) : Prop :=
  isSentinel slot = false ∧ slot < pool.size ∧ pool.counterOf slot % 2 = 0

/-- What the walk from the head meets. -/
structure ChainShape (pool : Pool 1 Entry) (slots : List Nat) : Prop where
  /-- The head leads to the first of these slots, each of them to the next, and the last to the
  tail. -/
  leads : (spine slots).IsChain fun front behind => pool.next? 0 front = some behind
  /-- No slot is met twice. -/
  distinct : (spine slots).Nodup
  ascending : slots.Pairwise fun front behind => keyOf pool front < keyOf pool behind
  /-- The walk meets the nodes whose link is not cleared. -/
  mem_iff : ∀ slot, slot ∈ slots ↔ Inserted pool slot ∧ pool.linkOf slot 0 ≠ Link.cleared

/-- The shape of a list. -/
structure Shaped (pool : Pool 1 Entry) : Prop where
  chain : ∃ slots, ChainShape pool slots
  sentinels : ∀ slot, isSentinel slot = true → ¬ Marked pool slot
  tailNil : pool.linkOf tailSlot 0 = Link.nil

namespace Consistent

variable {line free : List Nat} {pending : Nat → Bool} {held : Nat → Nat} {pool : Pool 1 Entry}

theorem mem_line_iff (consistent : Consistent line free [] pending held pool) (slot : Nat) :
    slot ∈ line ↔ Inserted pool slot ∧ pool.linkOf slot 0 ≠ Link.cleared := by
  constructor
  · intro member
    have inside := consistent.inside (mem_spine_of_mem member)
    refine ⟨⟨consistent.isSentinel_eq_false member, inside, (consistent.accounted.not_free_iff
      inside).mp (consistent.occupied slot (mem_spine_of_mem member))⟩, fun isCleared => ?_⟩
    exact consistent.not_mem_of_cleared isCleared (List.mem_cons_of_mem _ member)
  · rintro ⟨⟨inner, inside, even⟩, notCleared⟩
    rcases consistent.covered slot inside with inSpine | isFresh | isFree | isCleared
    · exact mem_of_mem_spine inSpine inner
    · exact absurd isFresh (by simp)
    · exact absurd isFree ((consistent.accounted.not_free_iff inside).mpr even)
    · exact absurd isCleared notCleared

/-- The line is what the walk from the head meets. -/
theorem chainShape (consistent : Consistent line free [] pending held pool) :
    ChainShape pool line := by
  have strung := consistent.strung
  refine ⟨strung.threaded.isChain strung.distinct strung.linked, strung.distinct, ?ascending,
    consistent.mem_line_iff⟩
  case ascending =>
    refine List.Pairwise.imp_of_mem (fun frontMember behindMember before => ?_)
      (pairwise_rank strung.distinct)
    exact strung.sorted _ frontMember _ behindMember before

theorem shaped (consistent : Consistent line free [] pending held pool) : Shaped pool := by
  have strung := consistent.strung
  refine ⟨⟨line, consistent.chainShape⟩, fun slot sentinel => ?sentinels, strung.tailNil⟩
  case sentinels =>
    rcases isSentinel_iff.mp sentinel with rfl | rfl
    · exact strung.headUnmarked
    · exact not_marked_of_nil strung.tailNil

end Consistent

/-! ### The live nodes of the chain -/

/-- The nodes of a chain that are not marked. -/
def liveNodes (pool : Pool 1 Entry) (slots : List Nat) : List Nat :=
  slots.filter fun slot => decide (¬ Marked pool slot)

theorem mem_liveNodes {pool : Pool 1 Entry} {slots : List Nat} {slot : Nat} :
    slot ∈ liveNodes pool slots ↔ slot ∈ slots ∧ ¬ Marked pool slot := by
  unfold liveNodes
  rw [List.mem_filter, decide_eq_true_eq]

/-- The live nodes, in the order in which the walk from the head meets them. -/
def LiveChain (pool : Pool 1 Entry) (live : List Nat) : Prop :=
  ∃ slots, ChainShape pool slots ∧ live = liveNodes pool slots

namespace LiveChain

variable {pool after : Pool 1 Entry} {live later : List Nat}

theorem mem_iff (chain : LiveChain pool live) (slot : Nat) : slot ∈ live ↔ Live pool slot := by
  obtain ⟨slots, shape, rfl⟩ := chain
  rw [mem_liveNodes, shape.mem_iff]
  constructor
  · rintro ⟨⟨⟨inner, inside, even⟩, -⟩, unmarked⟩
    exact ⟨inner, inside, even, unmarked⟩
  · rintro ⟨inner, inside, even, unmarked⟩
    exact ⟨⟨⟨inner, inside, even⟩, fun isCleared => unmarked (marked_of_cleared isCleared)⟩,
      unmarked⟩

theorem ascending (chain : LiveChain pool live) :
    live.Pairwise fun front behind => keyOf pool front < keyOf pool behind := by
  obtain ⟨slots, shape, rfl⟩ := chain
  exact shape.ascending.filter _

/-- If the live nodes are the same ones and have the same keys, they stand in the same order. -/
theorem eq_of_live (chain : LiveChain pool live) (laterChain : LiveChain after later)
    (same : ∀ slot, Live after slot ↔ Live pool slot)
    (key : ∀ slot, Live pool slot → keyOf after slot = keyOf pool slot) : later = live := by
  have members : ∀ slot, slot ∈ later ↔ Live pool slot := fun slot => by
    rw [laterChain.mem_iff, same]
  have ascending : later.Pairwise fun front behind => keyOf pool front < keyOf pool behind := by
    refine laterChain.ascending.imp_of_mem fun frontMember behindMember smaller => ?_
    rwa [key _ ((members _).mp frontMember), key _ ((members _).mp behindMember)] at smaller
  have strict : Std.Asymm fun front behind => keyOf pool front < keyOf pool behind :=
    ⟨fun _ _ => Int64.lt_asymm⟩
  exact ascending.eq_of_mem_iff chain.ascending fun slot =>
    (members slot).trans (chain.mem_iff slot).symm

end LiveChain

theorem Consistent.liveChain {line free : List Nat} {pending : Nat → Bool} {held : Nat → Nat}
    {pool : Pool 1 Entry} (consistent : Consistent line free [] pending held pool) :
    LiveChain pool (liveNodes pool line) :=
  ⟨line, consistent.chainShape, rfl⟩

/-! ### What walks leave -/

/-- A chain has lost some of its marked nodes and nothing else. -/
structure Thinned (pool after : Pool 1 Entry) (slots left : List Nat) : Prop where
  before : ChainShape pool slots
  chain : ChainShape after left
  part : left.Sublist slots
  gone : ∀ slot ∈ slots, slot ∉ left → Marked pool slot

namespace Consistent

variable {line free : List Nat} {pending : Nat → Bool} {held : Nat → Nat}
  {pool after : Pool 1 Entry} {temporary : List Nat}

/-- A walk leaves what is live. -/
theorem live_iff_of_holds (consistent : Consistent line free [] pending held pool)
    (holds : consistent.ground.Holds temporary after)
    (members : ∀ slot ∈ temporary, slot ∈ spine line) (slot : Nat) :
    Live after slot ↔ Live pool slot := by
  rw [(consistent.walked holds members).live_iff, consistent.live_iff]
  exact and_congr_right fun _ => (holds.marked_iff slot).not

/-- A walk takes marked nodes off the chain and no others. -/
theorem thinned (consistent : Consistent line free [] pending held pool)
    (holds : consistent.ground.Holds temporary after)
    (members : ∀ slot ∈ temporary, slot ∈ spine line) :
    Thinned pool after line (remaining line after) := by
  refine ⟨consistent.chainShape, (consistent.walked holds members).chainShape,
    List.filter_sublist, fun slot member off => ?_⟩
  by_contra alive
  exact off (mem_remaining.mpr
    ⟨member, holds.linked_of_alive (List.mem_cons_of_mem _ member) alive⟩)

end Consistent

/-! ### What comes on the list -/

/-- Only an insert makes a removal pending, and that of the first free slot. -/
theorem pending_of_next {pending : Nat → Bool} {session : Session SortedList Handle} {step : Step}
    {answer : Answer} {slot : Nat}
    (isPending : nextPending pending session step answer slot = true) :
    pending slot = true ∨ answer = .insertion (.ok .inserted) ∧
      session.subject.pool.freeHead.slot? = some slot := by
  have finished : ∀ {slot?}, finish? pending slot? slot = true → pending slot = true := by
    intro slot? still
    unfold finish? at still
    cases slot? with
    | none => exact still
    | some other => exact (finish_eq_true_iff.mp still).1
  unfold nextPending at isPending
  split at isPending
  next =>
    cases first : session.subject.pool.freeHead.slot? with
    | none =>
      rw [first] at isPending
      exact Or.inl isPending
    | some taken =>
      rw [first] at isPending
      rcases await_eq_true_iff.mp isPending with wasPending | rfl
      · exact Or.inl wasPending
      · exact Or.inr ⟨rfl, rfl⟩
  next => exact Or.inl (finished isPending)
  next => exact Or.inl (finished isPending)
  next => exact Or.inl (finished isPending)
  next => exact Or.inl isPending

/-- What comes on the list with a step is the first free slot, which an insert links. -/
theorem InOrder.entered {capacity : UInt64} {pending : Nat → Bool}
    {session after : Session SortedList Handle} {step : Step} {answer : Answer}
    (inOrder : InOrder capacity pending session) (taken : take step session = .ok (answer, after))
    {slot : Nat} (off : ¬ session.subject.pool.Met 0 slot) (on : after.subject.pool.Met 0 slot) :
    answer = .insertion (.ok .inserted) ∧ session.subject.pool.freeHead.slot? = some slot := by
  obtain ⟨line, free, before⟩ := inOrder.consistent
  have moved := (inOrder.take_ends step).of_ran taken
  obtain ⟨laterLine, laterFree, later⟩ := moved.inOrder.consistent
  rw [before.met_iff] at off
  have member : slot ∈ laterLine := by
    rcases mem_spine.mp ((later.met_iff slot).mp on) with rfl | inLine | rfl
    · exact absurd (head_mem_spine line) off
    · exact inLine
    · exact absurd (tail_mem_spine line) off
  have isPending := later.linkedPending slot member
  refine (pending_of_next isPending).resolve_left fun wasPending => ?_
  have isCleared := (before.pendingKnown slot wasPending).resolve_left fun inLine =>
    off (mem_spine_of_mem inLine)
  exact later.not_mem_of_cleared (moved.off slot wasPending isPending isCleared)
    (List.mem_cons_of_mem _ member)

/-- Steps from one session to another after none of which a slot is free. -/
inductive Occupied (slot : Nat) (session : Session SortedList Handle) :
    Session SortedList Handle → Prop
  | here (even : session.subject.pool.counterOf slot % 2 = 0) : Occupied slot session session
  | step {middle after : Session SortedList Handle} {step : Step} {answer : Answer}
      (occupied : Occupied slot session middle) (taken : take step middle = .ok (answer, after))
      (even : after.subject.pool.counterOf slot % 2 = 0) : Occupied slot session after

theorem Occupied.even {slot : Nat} {session after : Session SortedList Handle}
    (occupied : Occupied slot session after) : after.subject.pool.counterOf slot % 2 = 0 := by
  cases occupied with
  | here even => exact even
  | step _ _ even => exact even

/-- What is off the list and not free stays off it for as long as it is not free. -/
theorem InOrder.stays_off {capacity : UInt64} {pending : Nat → Bool}
    {session after : Session SortedList Handle} (inOrder : InOrder capacity pending session)
    {slot : Nat} (off : ¬ session.subject.pool.Met 0 slot)
    (occupied : Occupied slot session after) :
    (∃ later, InOrder capacity later after) ∧ ¬ after.subject.pool.Met 0 slot := by
  induction occupied with
  | here => exact ⟨⟨pending, inOrder⟩, off⟩
  | @step middle after step answer occupied taken even inductionHypothesis =>
    obtain ⟨⟨later, middleInOrder⟩, stillOff⟩ := inductionHypothesis
    refine ⟨⟨_, ((middleInOrder.take_ends step).of_ran taken).inOrder⟩, fun on => ?_⟩
    obtain ⟨-, first⟩ := middleInOrder.entered taken stillOff on
    -- The first free slot carries a claim, which a slot that is not free does not.
    obtain ⟨line, free, consistent⟩ := middleInOrder.consistent
    have isFree := consistent.accounted.mem_of_first first
    have inside := consistent.accounted.inside slot isFree
    exact (consistent.accounted.not_free_iff inside).mpr occupied.even isFree

/-! ### The shape of a run -/

/-- In every session of a run the list has its shape. What comes on the list with a step is the
first free slot, and a node that is off the list stays off it until its slot is free. -/
theorem chain_shaped {capacity : UInt64} {pending : Nat → Bool}
    {session : Session SortedList Handle} (reached : Reached capacity pending session) :
    Shaped session.subject.pool ∧
      (∀ step answer after, take step session = .ok (answer, after) → ∀ slot,
        ¬ session.subject.pool.Met 0 slot → after.subject.pool.Met 0 slot →
          answer = .insertion (.ok .inserted) ∧
            session.subject.pool.freeHead.slot? = some slot) ∧
      ∀ slot after, ¬ session.subject.pool.Met 0 slot → Occupied slot session after →
        ¬ after.subject.pool.Met 0 slot := by
  have inOrder := reached.inOrder
  obtain ⟨line, free, consistent⟩ := inOrder.consistent
  exact ⟨consistent.shaped, fun step answer after taken slot => inOrder.entered taken,
    fun slot after off occupied => (inOrder.stays_off off occupied).2⟩

/-- A list has its shape while a removal is half done. -/
theorem chain_shaped_halfRemoved : ∃ pending session handle,
    followFromStart 3 halfRemoved = some (pending, session) ∧ HalfDone pending session handle ∧
      Shaped session.subject.pool := by
  obtain ⟨pending, session, handle, followed, halfDone⟩ := exists_halfRemoved
  have shaped := chain_shaped (Reached.of_steps followed)
  exact ⟨pending, session, handle, followed, halfDone, shaped.1⟩

end SortedList

end PooledContainers
