/-
The list of the live entries behind a node of a line. A walk that goes on to the next node, without
passing a live one, lists that node's entry, if it is live, in front of the entries behind it.
-/

import PooledContainers.Proofs.Threads

namespace PooledContainers

open Line

/-- A walk goes on behind a node of a line at the next one, in front of which no live node stands;
or there is no live node behind. Which nodes it holds then is up to the container. -/
inductive WentOn {levels : Nat} {Body : Type} [Inhabited Body] (line : List Nat)
    (dead : Nat → Prop) (holds : List Nat → Pool levels Body → Prop) (temporary : List Nat)
    (node : Nat) : Option Nat → Pool levels Body → Prop
  | on {next : Nat} {after : Pool levels Body} (bothHeld : holds (next :: node :: temporary) after)
      (ends : next = tailSlot ∨ next ∈ line ∧ after.Linked 0 next)
      (further : rank line node < rank line next)
      (passed : ∀ slot ∈ line, ¬ dead slot → rank line node < rank line slot →
        rank line next ≤ rank line slot) :
      WentOn line dead holds temporary node (some next) after
  | done {after : Pool levels Body} (stillHeld : holds (node :: temporary) after)
      (passed : ∀ slot ∈ line, ¬ dead slot → ¬ rank line node < rank line slot) :
      WentOn line dead holds temporary node none after

/-- A list holds the live entries behind a node of a line, in ascending order of their keys. -/
structure Listing {Key Value : Type} [LT Key] (line : List Nat) (dead : Nat → Prop)
    (key : Nat → Key) (value : Nat → Value) (node : Nat) (all : List (Key × Value)) : Prop where
  ascending : all.Pairwise fun first second => first.1 < second.1
  mem_iff : ∀ wanted found, (wanted, found) ∈ all ↔ ∃ slot ∈ line, ¬ dead slot ∧
    rank line node < rank line slot ∧ key slot = wanted ∧ value slot = found

namespace Listing

variable {Key Value : Type} [LT Key] {line : List Nat} {dead : Nat → Prop} {key : Nat → Key}
  {value : Nat → Value} {node next : Nat} {rest : List (Key × Value)}

/-- Nothing is listed if no live node stands behind. -/
theorem nil (passed : ∀ slot ∈ line, ¬ dead slot → ¬ rank line node < rank line slot) :
    Listing line dead key value node [] := by
  refine ⟨List.Pairwise.nil, fun wanted found => ⟨fun member => absurd member (by simp), ?_⟩⟩
  rintro ⟨slot, member, alive, before, -⟩
  exact absurd before (passed slot member alive)

/-- Nothing is listed if the tail comes next. -/
theorem nil_of_tail (distinct : (spine line).Nodup)
    (passed : ∀ slot ∈ line, ¬ dead slot → rank line node < rank line slot →
      rank line tailSlot ≤ rank line slot) :
    Listing line dead key value node [] :=
  nil fun slot member alive before => Nat.not_lt_of_le (passed slot member alive before)
    (rank_lt_rank_tail distinct (List.mem_cons_of_mem _ member))

section Next

variable (lists : Listing line dead key value next rest) (nextMember : next ∈ line)
  (further : rank line node < rank line next)
  (passed : ∀ slot ∈ line, ¬ dead slot → rank line node < rank line slot →
    rank line next ≤ rank line slot)

include lists nextMember further passed

/-- A dead node that comes next is left out. -/
theorem skip (isDead : dead next) : Listing line dead key value node rest := by
  refine ⟨lists.ascending, fun wanted found => (lists.mem_iff wanted found).trans ?_⟩
  refine exists_congr fun slot => and_congr_right fun member => and_congr_right fun alive => ?_
  refine and_congr_left fun _ => ⟨Nat.lt_trans further, fun before => ?_⟩
  have apart : rank line next ≠ rank line slot := fun same =>
    alive (rank_injective (mem_spine_of_mem nextMember) same ▸ isDead)
  exact Nat.lt_of_le_of_ne (passed slot member alive before) apart

/-- A live node that comes next is listed in front of the others, if their keys are greater. -/
theorem cons (alive : ¬ dead next)
    (smaller : ∀ slot ∈ line, ¬ dead slot → rank line next < rank line slot →
      key next < key slot) :
    Listing line dead key value node ((key next, value next) :: rest) := by
  refine ⟨List.pairwise_cons.mpr ⟨fun entry member => ?_, lists.ascending⟩,
    fun wanted found => ?_⟩
  · obtain ⟨slot, slotMember, slotAlive, before, same, -⟩ :=
      (lists.mem_iff entry.1 entry.2).mp member
    rw [← same]
    exact smaller slot slotMember slotAlive before
  · rw [List.mem_cons, lists.mem_iff wanted found]
    constructor
    · rintro (same | ⟨slot, member, slotAlive, before, others⟩)
      · obtain ⟨sameKey, sameValue⟩ := Prod.mk.inj same
        exact ⟨next, nextMember, alive, further, sameKey.symm, sameValue.symm⟩
      · exact ⟨slot, member, slotAlive, Nat.lt_trans further before, others⟩
    · rintro ⟨slot, member, slotAlive, before, sameKey, sameValue⟩
      rcases Nat.eq_or_lt_of_le (passed slot member slotAlive before) with same | behind
      · left
        rw [← sameKey, ← sameValue, rank_injective (mem_spine_of_mem nextMember) same]
      · exact Or.inr ⟨slot, member, slotAlive, behind, sameKey, sameValue⟩

end Next

end Listing

end PooledContainers
