/-
The list of the live entries. From a live node the walk goes on by its link; from a node that is
being removed it goes on by a search for the key after the node's. Either way no live entry is
passed, however many removals are half done.
-/

import PooledContainers.Proofs.Listing
import PooledContainers.Proofs.SortedList.Extraction

namespace PooledContainers

namespace SortedList

open Line Operation Pool

/-! ### The key after a key -/

theorem keyAfter?_eq_some {key following : Int64} (some : keyAfter? key = some following)
    (other : Int64) : following ≤ other ↔ key < other := by
  unfold keyAfter? at some
  split at some
  next => exact absurd some (by simp)
  next notLast =>
    rw [← Option.some.inj some]
    have bound := key.toInt_lt
    have least := key.le_toInt
    have apart : key.toInt ≠ Int64.maxValue.toInt := fun same => notLast (Int64.toInt_inj.mp same)
    rw [Int64.toInt_maxValue] at apart
    rw [Int64.le_iff_toInt_le, Int64.lt_iff_toInt_lt, Int64.toInt_add, Int64.toInt_one,
      Int.bmod_eq_of_le (by omega) (by omega)]
    exact Int.add_one_le_iff

theorem keyAfter?_eq_none {key : Int64} (none : keyAfter? key = none) (other : Int64) :
    other ≤ key := by
  unfold keyAfter? at none
  split at none
  next last => exact last ▸ Int64.le_maxValue other
  next => exact absurd none (by simp)

/-! ### Going on -/

variable {ground : Ground} {temporary : List Nat} {pool : Pool 1 Entry} {node : Nat}

theorem nextOf_ends (holds : ground.Holds (node :: temporary) pool)
    (member : node ∈ headSlot :: ground.line) :
    Ends (nextOf node) pool (WentOn ground.line ground.Dead ground.Holds temporary node) := by
  have distinct := ground.strung.distinct
  unfold nextOf
  by_cases dead : ground.Dead node
  · have inLine := ground.mem_line_of_dead member dead
    have keyLt : ∀ slot ∈ ground.line, ground.rank node < ground.rank slot →
        ground.key node < ground.key slot := ground.strung.sorted node inLine
    refine Ends.bind (followFrom_ends_of_dead holds member dead ?_)
    refine Ends.bind (holds.bodyAt_ends (mem_spine_of_mem inLine) ?_)
    cases following : keyAfter? (ground.start.bodyOf node).key with
    | none =>
      refine Ends.pure (WentOn.done holds fun slot slotMember _ before => ?_)
      exact Int64.not_lt.mpr (keyAfter?_eq_none following (ground.key slot))
        (keyLt slot slotMember before)
    | some key =>
      have keyLe : ∀ other, key ≤ other ↔ ground.key node < other := keyAfter?_eq_some following
      refine Ends.andThen (search_ends holds key) fun position middle found => ?_
      obtain ⟨before, next⟩ := position
      refine Ends.bind (found.holds.release_ends (mem_spine_of_mem_cons found.member)
        fun released => Ends.pure (WentOn.on released (found.adjacent.recount _ _).ends ?_
          fun slot slotMember alive behind => ?_))
      · rcases found.reached with isTail | ⟨nextMember, -, le⟩
        · rw [show next = tailSlot from isTail]
          exact rank_lt_rank_tail distinct member
        · exact ground.rank_lt_of_key_lt inLine nextMember ((keyLe _).mp le)
      · exact found.rank_le slotMember alive ((keyLe _).mpr (keyLt slot slotMember behind))
  · refine Ends.bind (followFrom_ends holds member dead fun next link adjacent both =>
      Ends.pure (WentOn.on both (adjacent.recount _ _).ends adjacent.before
        fun slot slotMember alive before => ?_))
    exact adjacent.between slot slotMember
      (holds.linked_of_alive (List.mem_cons_of_mem _ slotMember) alive) before

/-! ### All entries behind a node -/

/-- A list holds the live entries behind a node. -/
abbrev Ground.Lists (ground : Ground) (node : Nat) (all : List (Int64 × UInt64)) : Prop :=
  Listing ground.line ground.Dead ground.key (fun slot => (ground.start.bodyOf slot).payload)
    node all

theorem entriesFrom_ends (steps : Nat) {node : Nat} {pool : Pool 1 Entry}
    (holds : ground.Holds (node :: temporary) pool) (member : node ∈ headSlot :: ground.line)
    (enough : ground.line.length < steps + ground.rank node) :
    Ends (entriesFrom steps node) pool fun all after =>
      ground.Holds temporary after ∧ ground.Lists node all := by
  have nodeSpine := mem_spine_of_mem_cons member
  have distinct := ground.strung.distinct
  induction steps generalizing node pool with
  | zero =>
    have short : ground.rank node ≤ ground.line.length := rank_le_length distinct member
    omega
  | succ steps inductionHypothesis =>
    unfold entriesFrom
    refine Ends.andThen (nextOf_ends holds member) fun next middle went => ?_
    cases went with
    | done stillHolds passed =>
      exact Ends.bind (stillHolds.release_ends nodeSpine fun released =>
        Ends.pure ⟨released, Listing.nil passed⟩)
    | @on next _ bothHold ends further passed =>
      replace further : ground.rank node < ground.rank next := further
      show Ends (if next = tailSlot then _ else _) _ _
      by_cases isTail : next = tailSlot
      · rw [if_pos isTail]
        exact Ends.bind (bothHold.releaseBoth_ends (isTail ▸ tail_mem_spine _) nodeSpine
          fun _ done => Ends.pure ⟨done, Listing.nil_of_tail distinct (isTail ▸ passed)⟩)
      · rw [if_neg isTail]
        have nextMember := (ends.resolve_left isTail).1
        have nextSpine := mem_spine_of_mem nextMember
        refine Ends.bind (bothHold.linkAt_ends nextSpine ?_)
        rw [bothHold.isMarked_eq]
        refine Ends.bind (bothHold.bodyAt_ends nextSpine ?_)
        refine Ends.bind (bothHold.swap.release_ends nodeSpine fun released => ?_)
        refine Ends.andThen (inductionHypothesis released (List.mem_cons_of_mem _ nextMember)
          (by omega) nextSpine) fun rest after listed => Ends.pure ⟨listed.1, ?_⟩
        by_cases dead : ground.Dead next
        · rw [if_pos (decide_eq_true dead)]
          exact Listing.skip listed.2 nextMember further passed dead
        · rw [if_neg (by rw [decide_eq_true_eq]; exact dead)]
          exact Listing.cons listed.2 nextMember further passed dead fun slot slotMember _ =>
            ground.strung.sorted next nextMember slot slotMember

/-- The list of the entries holds what is live, in ascending order. -/
theorem Consistent.allEntries_ends {line free fresh : List Nat} {pending : Nat → Bool}
    {held : Nat → Nat} (consistent : Consistent line free fresh pending held pool) :
    Ends allEntries pool fun all after =>
      consistent.ground.Holds [] after ∧ (all.Pairwise fun first second => first.1 < second.1) ∧
        ∀ key payload, (key, payload) ∈ all ↔ ∃ slot ∈ line, ¬ Marked pool slot ∧
          keyOf pool slot = key ∧ (pool.bodyOf slot).payload = payload := by
  have bound := length_lt_of_forall_lt consistent.strung.distinct consistent.strung.inside
  unfold allEntries
  refine Ends.bind (consistent.holds.retain_ends (head_mem_spine _) fun retained => Ends.onStart
    ((entriesFrom_ends _ retained List.mem_cons_self ?_).imp fun all after listed => ?_))
  · rw [retained.size]
    exact Nat.lt_of_lt_of_le (Nat.lt_of_lt_of_le (Nat.lt_add_of_pos_right (by decide)) bound)
      (Nat.le_add_right _ _)
  · refine ⟨listed.1, listed.2.ascending, fun key payload =>
      (listed.2.mem_iff key payload).trans (exists_congr fun slot => and_congr_right fun member =>
        and_congr_right fun _ => and_iff_right ?_)⟩
    rw [rank_head]
    exact rank_pos consistent.strung.distinct member

/-- The list of the entries may take deleted nodes off the list, and changes nothing else. -/
theorem Consistent.entries_ends {line free : List Nat} {pending : Nat → Bool} {held : Nat → Nat}
    {list : SortedList} (consistent : Consistent line free [] pending held list.pool) :
    Ends entries list fun all after =>
      ((all.Pairwise fun first second => first.1 < second.1) ∧
        ∀ key payload, (key, payload) ∈ all ↔ ∃ slot ∈ line, ¬ Marked list.pool slot ∧
          keyOf list.pool slot = key ∧ (list.pool.bodyOf slot).payload = payload) ∧
      Settled pending held 0 list after := by
  refine onNodes_ends (consistent.allEntries_ends.imp fun all pool listed => ⟨listed.2, ?_⟩)
  have walked : Consistent (remaining line pool) free [] pending held pool :=
    (consistent.walked listed.1 (by simp)).congr fun slot => by simp
  exact ⟨rfl, (Int.add_zero _).symm, ⟨_, _, walked⟩, listed.1.alike pending⟩

end SortedList

end PooledContainers
