/-
The list of the live entries. The walk goes on from a node by its link, or, if the node is being
removed, from the first node behind its key. Either way no live entry is passed: what stands behind
a deleted node with the same key is deleted as well.
-/

import PooledContainers.PriorityQueue.Operations
import PooledContainers.Proofs.Listing
import PooledContainers.Proofs.PriorityQueue.Consistent

namespace PooledContainers

namespace PriorityQueue

open Line Operation Pool

/-! ### The key after a key -/

theorem keyAfter?_eq_some {key following : UInt64} (some : keyAfter? key = some following)
    (other : UInt64) : other < following ↔ other ≤ key := by
  unfold keyAfter? at some
  split at some
  next => exact absurd some (by simp)
  next notLast =>
    rw [← Option.some.inj some, UInt64.lt_iff_toNat_lt, UInt64.le_iff_toNat_le, UInt64.toNat_add]
    have bound := key.toNat_lt
    have less : key.toNat ≠ 18446744073709551615 := fun same =>
      notLast (UInt64.toNat_inj.mp same)
    rw [show (1 : UInt64).toNat = 1 from rfl]
    omega

theorem keyAfter?_eq_none {key : UInt64} (none : keyAfter? key = none) (other : UInt64) :
    other ≤ key := by
  unfold keyAfter? at none
  split at none
  next last =>
    rw [last, UInt64.le_iff_toNat_le]
    have bound := other.toNat_lt
    rw [show (18446744073709551615 : UInt64).toNat = 18446744073709551615 from rfl]
    omega
  next => exact absurd none (by simp)

/-! ### Going on -/

variable {ground : Ground} {helping : Helping} {temporary : List Nat}
  {pool : Pool maxLevels Entry}

/-- Behind a deleted node all live nodes have greater keys. -/
theorem Ground.key_lt_of_dead {node slot : Nat} (nodeMember : node ∈ ground.line)
    (member : slot ∈ ground.line) (alive : ¬ ground.Dead slot)
    (before : ground.rank node < ground.rank slot) : ground.key node < ground.key slot :=
  (ground.roster.sorted node nodeMember slot member before).resolve_right fun both => alive both.2

/-- Every live node of the ground is linked at level 0. -/
def Ground.Anchored (ground : Ground) : Prop :=
  ground.Laned ground.start ∧
    ∀ slot ∈ ground.line, ground.validHeight slot = ground.height slot

theorem nextOf_ends (sound : helping.SoundBefore ground (ground.line.length + 2))
    (anchored : ground.Anchored) {node : Nat} (holds : ground.Holds (node :: temporary) pool)
    (member : node ∈ headSlot :: ground.line) (there : pool.linkOf node 0 ≠ Link.nil) :
    Ends (nextOf helping ground.maxHeight node) pool
      (WentOn ground.line ground.Dead ground.Holds temporary node) := by
  have distinct := ground.roster.distinct
  unfold nextOf
  refine Ends.bind (holds.linkAt_ends member there ?_)
  cases marked : (pool.linkOf node 0).isMarked with
  | false =>
    obtain ⟨next, leads, adjacent⟩ := holds.lanes.exists_next member there marked
    have nextInside := holds.inside adjacent.mem_spine
    refine Ends.bind (follow_ends marked leads nextInside (Ends.pure ?_))
    have retained : ground.Holds (next :: node :: temporary) (pool.retained next) :=
      holds.recount (holds.held.retained nextInside)
    refine WentOn.on retained (adjacent.recount _ _).ends adjacent.before
      fun slot slotMember alive before => ?_
    exact adjacent.between slot slotMember
      (holds.linked_of_alive anchored.1 anchored.2 slotMember alive) before
  | true =>
    have inLine : node ∈ ground.line := by
      by_contra outside
      rw [ground.head_of_not_mem member outside, holds.lanes.headUnmarked] at marked
      exact Bool.false_ne_true marked
    have dead := holds.lanes.marked node inLine 0 marked
    refine Ends.bind (follow_ends_of_isMarked marked ?_)
    refine Ends.bind (holds.bodyAt_ends (mem_spine_of_mem inLine) ?_)
    cases following : keyAfter? (ground.start.bodyOf node).key with
    | none =>
      refine Ends.pure (WentOn.done holds fun slot slotMember alive before => ?_)
      have greater := Ground.key_lt_of_dead inLine slotMember alive before
      exact UInt64.not_lt.mpr (keyAfter?_eq_none following (ground.key slot)) greater
    | some key =>
      have covers : ground.Covers ground.line.length key := fun slot slotMember _ =>
        rank_le_length distinct (List.mem_cons_of_mem _ slotMember)
      refine Ends.andThen (Helping.firstFrom_ends sound holds (by omega) covers)
        fun next after found => Ends.pure ?_
      obtain ⟨foundHolds, tidied, prev, prevMember, adjacent, prevBefore, nextBehind⟩ := found
      refine WentOn.on foundHolds adjacent.ends ?_ fun slot slotMember alive before => ?_
      · rcases adjacent.ends with rfl | ⟨nextMember, -⟩
        · exact rank_lt_rank_tail distinct member
        · have notTail : next ≠ tailSlot := fun same => tail_not_mem distinct (same ▸ nextMember)
          refine ground.rank_lt_of_key_lt inLine nextMember (UInt64.not_le.mp fun le => ?_)
          exact UInt64.not_lt.mpr (nextBehind.resolve_left notTail)
            ((keyAfter?_eq_some following _).mpr le)
      · refine adjacent.between slot slotMember
          (foundHolds.linked_of_alive anchored.1 anchored.2 slotMember alive) ?_
        rcases prevBefore with rfl | ⟨prevInLine, smaller⟩
        · rw [rank_head]
          exact rank_pos distinct slotMember
        · refine ground.rank_lt_of_key_lt prevInLine slotMember (UInt64.lt_of_le_of_lt
            ((keyAfter?_eq_some following _).mp smaller) ?_)
          exact Ground.key_lt_of_dead inLine slotMember alive before

/-! ### All entries behind a node -/

/-- A list holds the live entries behind a node. -/
abbrev Ground.Lists (ground : Ground) (node : Nat) (all : List (UInt64 × UInt64)) : Prop :=
  Listing ground.line ground.Dead ground.key
    (fun slot => (ground.start.bodyOf slot).datum.payload) node all

/-- The entries behind the next node, and that node's own entry if it is live. -/
theorem Ground.Lists.next {node next : Nat} {rest : List (UInt64 × UInt64)}
    (lists : ground.Lists next rest) (nextMember : next ∈ ground.line)
    (further : ground.rank node < ground.rank next)
    (passed : ∀ slot ∈ ground.line, ¬ ground.Dead slot → ground.rank node < ground.rank slot →
      ground.rank next ≤ ground.rank slot) :
    ground.Lists node (if (ground.start.bodyOf next).datum.isDeleted then rest
      else ((ground.start.bodyOf next).key, (ground.start.bodyOf next).datum.payload) :: rest) := by
  by_cases dead : ground.Dead next
  · rw [if_pos (show (ground.start.bodyOf next).datum.isDeleted = true from dead)]
    exact Listing.skip lists nextMember further passed dead
  · rw [if_neg (show ¬ (ground.start.bodyOf next).datum.isDeleted = true from dead)]
    exact Listing.cons lists nextMember further passed dead fun slot =>
      Ground.key_lt_of_dead nextMember

theorem entriesFrom_ends (sound : helping.SoundBefore ground (ground.line.length + 2))
    (anchored : ground.Anchored) (steps : Nat) {node : Nat} {pool : Pool maxLevels Entry}
    (holds : ground.Holds (node :: temporary) pool) (member : node ∈ headSlot :: ground.line)
    (there : pool.linkOf node 0 ≠ Link.nil)
    (enough : ground.line.length < steps + ground.rank node) :
    Ends (entriesFrom helping ground.maxHeight steps node) pool fun all after =>
      ground.Holds temporary after ∧ ground.Lists node all := by
  have nodeSpine := mem_spine_of_mem_cons member
  have distinct := ground.roster.distinct
  induction steps generalizing node pool with
  | zero =>
    have short : ground.rank node ≤ ground.line.length := rank_le_length distinct member
    omega
  | succ steps inductionHypothesis =>
    unfold entriesFrom
    refine Ends.andThen (nextOf_ends sound anchored holds member there) fun found middle went => ?_
    cases went with
    | done stillHolds passed =>
      exact Ends.bind (stillHolds.release_ends nodeSpine fun released =>
        Ends.pure ⟨released, Listing.nil passed⟩)
    | @on next _ bothHold ends further passed =>
      replace further : ground.rank node < ground.rank next := further
      have nextSpine : next ∈ spine ground.line := by
        rcases ends with rfl | ⟨nextMember, -⟩
        · exact tail_mem_spine _
        · exact mem_spine_of_mem nextMember
      show Ends (if next = tailSlot then _ else _) _ _
      by_cases isTail : next = tailSlot
      · rw [if_pos isTail]
        exact Ends.bind (bothHold.releaseBoth_ends nextSpine nodeSpine fun _ done =>
          Ends.pure ⟨done, Listing.nil_of_tail distinct (isTail ▸ passed)⟩)
      · rw [if_neg isTail]
        obtain ⟨nextMember, linked⟩ := ends.resolve_left isTail
        refine Ends.bind (bothHold.bodyAt_ends nextSpine ?_)
        refine Ends.bind (bothHold.swap.release_ends nodeSpine fun released => ?_)
        refine Ends.andThen (inductionHypothesis released (List.mem_cons_of_mem _ nextMember)
          (by rw [linkOf_recount]; exact linked.ne_nil) (by omega) nextSpine)
          fun rest after listed => Ends.pure ⟨listed.1, ?_⟩
        exact Ground.Lists.next listed.2 nextMember further passed

/-! ### The whole list -/

namespace Consistent

variable {maxHeight : Nat} {line free fresh : List Nat} {pending : Nat → Bool} {held : Nat → Nat}
  {after : Pool maxLevels Entry}

theorem anchored (consistent : Consistent maxHeight line free fresh pending held pool) :
    consistent.ground.Anchored :=
  ⟨consistent.lanes, consistent.whole⟩

/-- The list of the entries holds what is live, in ascending order. -/
theorem allEntries_ends (consistent : Consistent maxHeight line free fresh pending held pool) :
    Ends (allEntries (helpingFor maxHeight pool.size) maxHeight) pool fun all after =>
      consistent.ground.Holds [] after ∧ (all.Pairwise fun first second => first.1 < second.1) ∧
        ∀ key payload, (key, payload) ∈ all ↔ ∃ slot ∈ line, ¬ Deleted pool slot ∧
          keyOf pool slot = key ∧ (pool.bodyOf slot).datum.payload = payload := by
  have bound := consistent.sound.bound
  unfold allEntries
  refine Ends.bind (consistent.holds.retain_ends (head_mem_spine _) fun retained => ?_)
  refine (entriesFrom_ends consistent.sound consistent.anchored _ retained List.mem_cons_self
    (Helping.head_there retained consistent.roster.heights.1) ?_).imp fun all after listed => ?_
  · exact Nat.lt_of_lt_of_le (Nat.lt_of_lt_of_le (Nat.lt_add_of_pos_right (by decide)) bound)
      (Nat.le_add_right _ _)
  · refine ⟨listed.1, listed.2.ascending, fun key payload =>
      (listed.2.mem_iff key payload).trans (exists_congr fun slot => and_congr_right fun member =>
        and_congr_right fun _ => and_iff_right ?_)⟩
    rw [rank_head]
    exact rank_pos consistent.roster.distinct member

end Consistent

end PriorityQueue

end PooledContainers
