/-
The books of a pool balance in every session that a run gets to, and every further step that keeps
the rules has an answer and leaves them balanced. A count that is taken on a free node too late for
its former life is among them: it neither revives the node nor takes it off the free list, and when
it is given up while the node is free the node is not freed a second time.
-/

import PooledContainers.Proofs.Pool.Keeping

namespace PooledContainers

namespace Pool

open Operation

variable {levels : Nat} {Body : Type} [Inhabited Body]

/-! ### The free slots -/

/-- The slots met from a link along level 0, at most so many. -/
def slotsFrom (pool : Pool levels Body) : (limit : Nat) → Link → List Nat
  | 0, _ => []
  | limit + 1, link =>
    match link.slot? with
    | none => []
    | some slot => slot :: pool.slotsFrom limit (pool.linkOf slot 0)

/-- The slots on the free list, in its order. -/
def freeSlots (pool : Pool levels Body) : List Nat := pool.slotsFrom pool.size pool.freeHead

theorem slotsFrom_eq {pool : Pool levels Body} {free : List Nat} {link : Link} (limit : Nat)
    (inside : ∀ slot ∈ free, slot < pool.size) (enough : free.length ≤ limit)
    (chain : pool.FreeChain link free) : pool.slotsFrom limit link = free := by
  induction free generalizing link limit with
  | nil =>
    rw [show link = Link.nil from chain]
    cases limit with
    | zero => rfl
    | succ limit =>
      unfold slotsFrom
      rw [Link.slot?_nil]
  | cons slot rest inductionHypothesis =>
    cases limit with
    | zero => exact absurd enough (by simp)
    | succ limit =>
      unfold slotsFrom
      rw [chain.1, Link.slot?_ofSlot (size_lt_slotLimit (inside slot List.mem_cons_self))]
      refine congrArg (List.cons slot) (inductionHypothesis limit ?_ ?_ chain.2)
      · exact fun other member => inside other (List.mem_cons_of_mem _ member)
      · exact Nat.le_of_succ_le_succ enough

theorem Balanced.freeSlots_eq {pool : Pool levels Body} {free : List Nat} {outside : Nat → Nat}
    (balanced : Balanced free outside pool) : pool.freeSlots = free :=
  slotsFrom_eq pool.size balanced.inside balanced.length_le balanced.chain

/-! ### The books in a session -/

/-- The books of a pool of a size and the counts on its slots in a session. -/
structure Books (size : Nat) (detached : Nat → Nat)
    (session : Session (Workbench levels Body) Nat) : Prop where
  sized : session.subject.pool.size = size
  /-- A counter shows twice the counts on its slot, and one more while the slot is free. -/
  counter : ∀ slot < size, session.subject.pool.counterOf slot =
    2 * countsOn detached session slot + if slot ∈ session.subject.pool.freeSlots then 1 else 0
  /-- It fits a word, and one count more may be taken. -/
  fits : ∀ slot < size, countsOn detached session slot < countLimit →
    session.subject.pool.counterOf slot + 2 < UInt64.size
  /-- The free list leads from the free head to no node -/
  chain :
    session.subject.pool.FreeChain session.subject.pool.freeHead session.subject.pool.freeSlots
  /-- and meets no slot twice, -/
  distinct : session.subject.pool.freeSlots.Nodup
  /-- but every slot with an odd counter. -/
  mem_iff : ∀ slot, slot ∈ session.subject.pool.freeSlots ↔
    slot < size ∧ session.subject.pool.counterOf slot % 2 = 1
  /-- There is a count on what is not free. -/
  held : ∀ slot < size, slot ∉ session.subject.pool.freeSlots → 0 < countsOn detached session slot
  /-- Live are the slots that are not free. -/
  isLive : ∀ slot < size, isLive slot session.subject.pool =
    .ok (decide (slot ∉ session.subject.pool.freeSlots), session.subject.pool)
  /-- The figure of free nodes is their number. -/
  available : session.subject.pool.available = .ok session.subject.pool.freeSlots.length

section Books

variable {size : Nat} {back : Option Link} {body : Body} {detached : Nat → Nat} {free : List Nat}
  {session : Session (Workbench levels Body) Nat}

theorem Kept.books (hasLevel : 0 < levels) (kept : Kept detached free session)
    (same : session.subject.pool.size = size) : Books size detached session := by
  have balanced := kept.balanced
  obtain rfl := balanced.freeSlots_eq
  subst same
  refine ⟨rfl, balanced.counter, fun slot inside => counter_fits (balanced.counter slot inside),
    balanced.chain, balanced.distinct, fun slot => ?mem_iff, balanced.held,
    fun slot inside => ?isLive, available_eq hasLevel balanced⟩
  case mem_iff =>
    refine ⟨fun member => ⟨balanced.inside slot member, ?_⟩, fun ⟨inside, odd⟩ => ?_⟩
    · rw [balanced.counter slot (balanced.inside slot member), if_pos member]
      omega
    · refine Decidable.byContradiction fun absent => ?_
      rw [(balanced.not_free_iff inside).mp absent] at odd
      exact absurd odd Nat.zero_ne_one
  case isLive =>
    obtain ⟨live, _, ran, rfl, rfl⟩ : Ends (Pool.isLive slot) session.subject.pool
        fun live after => after = session.subject.pool ∧
          live = decide (slot ∉ session.subject.pool.freeSlots) := by
      refine Ends.bind (nodeAt_ends inside (Ends.pure ⟨rfl, ?_⟩))
      rw [Bool.eq_iff_iff, decide_eq_true_eq, balanced.not_free_iff inside]
      exact beq_iff_eq
    exact ran

/-- The books are kept in every session of a run. -/
theorem Reached.kept (hasLevel : 0 < levels) (nowhere : back.bind Link.slot? = none)
    (reached : Reached size back body detached session) :
    session.subject.pool.size = size ∧ ∃ free, Kept detached free session := by
  induction reached with
  | start made =>
    obtain ⟨same, kept⟩ := kept_start hasLevel nowhere made
    exact ⟨same, _, kept⟩
  | step before rules taken inductionHypothesis =>
    obtain ⟨same, free, kept⟩ := inductionHypothesis
    obtain ⟨later, advanced⟩ := (kept.take_ends hasLevel _ rules).of_ran taken
    exact ⟨advanced.size.trans same, later, advanced.kept⟩

/-- In every session of a run the books balance. From then on every step that keeps the rules has an
answer, after which they balance again. -/
theorem books_balance (hasLevel : 0 < levels) (nowhere : back.bind Link.slot? = none)
    (reached : Reached size back body detached session) :
    Books size detached session ∧ ∀ step, keepsRules detached session step = true →
      Ends (take step) session fun answer after =>
        Books size (nextDetached detached session step answer) after ∧
          Moves size session.subject.pool.freeSlots after.subject.pool.freeSlots
            (countsOn (nextDetached detached session step answer) after) answer step := by
  obtain ⟨same, free, kept⟩ := reached.kept hasLevel nowhere
  refine ⟨kept.books hasLevel same, fun step rules => ?_⟩
  refine (kept.take_ends hasLevel step rules).imp fun answer after advances => ?_
  obtain ⟨later, advanced⟩ := advances
  refine ⟨advanced.kept.books hasLevel (advanced.size.trans same), ?_⟩
  rw [kept.balanced.freeSlots_eq, advanced.kept.balanced.freeSlots_eq, ← same]
  exact advanced.moves

/-! ### A count taken on a free node -/

/-- Two nodes are allocated, the second of which had a count taken on it while it was free. Its
reference back is given the count of the first, and it is then given up by the one who allocated
it. -/
def retainedEarly : List Step :=
  [.allocate "first", .retain 1 "early", .allocate "second", .detach "first",
    .store (.back 1) (Link.ofSlot 0), .release "second"]

/-- The early count is the last one on its node, which is freed when the count is given up, along
with the node that it refers back to. -/
theorem books_balance_retainedEarly : ∃ detached session,
    followFromStart 1 2 (some Link.nil) () retainedEarly = some (detached, session) ∧
      Books 2 detached session ∧ Ends (take (.release "early")) session fun answer after =>
        Books 2 (nextDetached detached session (.release "early") answer) after ∧
          Moves 2 session.subject.pool.freeSlots after.subject.pool.freeSlots
            (countsOn (nextDetached detached session (.release "early") answer) after) answer
            (.release "early") := by
  have followed : (followFromStart 1 2 (some Link.nil) () retainedEarly).isSome = true := by
    decide +kernel
  obtain ⟨⟨detached, session⟩, same⟩ := Option.isSome_iff_exists.mp followed
  have balanced := books_balance Nat.one_pos rfl (Reached.of_steps same)
  exact ⟨detached, session, same, balanced.1, balanced.2 (.release "early") rfl⟩

end Books

end Pool

end PooledContainers
