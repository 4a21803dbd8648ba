/-
The figure of free nodes on any free list. Whoever uses a slot can write its link at level 0, so
that what the free head leads to may take any course, over marked links, through live nodes, or
round and round. The figure is the number of slots met before a link that names none, but no more
than the size of the pool. A chain either stops at such a link or comes back to a slot. If it stops,
it meets no slot twice, so that nothing is cut off; if it comes back, it goes on for ever, and the
figure is the size of the pool.
-/

import Mathlib.Data.ENat.Lattice
import Mathlib.Data.Fintype.Pigeonhole
import Mathlib.Data.Set.Card
import PooledContainers.Proofs.Pool.View

namespace PooledContainers

namespace Pool

variable {levels : Nat} {Body : Type} [Inhabited Body]

/-! ### The chain from a link -/

/-- The slot met at a step of the chain along level 0 that starts with a link, marks ignored. There
is none any more once a link names none. -/
def slotMet? (pool : Pool levels Body) (link : Link) : Nat → Option Nat
  | 0 => link.slot?
  | step + 1 => (pool.slotMet? link step).bind fun slot => (pool.linkOf slot 0).slot?

/-- The number of slots met, each counted as often as it is met. -/
noncomputable def countMet (pool : Pool levels Body) (link : Link) : ℕ∞ :=
  {step | (pool.slotMet? link step).isSome = true}.encard

/-- The slots met. -/
def chained (pool : Pool levels Body) (link : Link) : Set Nat :=
  {slot | ∃ step, pool.slotMet? link step = some slot}

/-- The chain comes to a link that names no slot, be it nil or cleared. -/
def Stops (pool : Pool levels Body) (link : Link) : Prop := ∃ step, pool.slotMet? link step = none

/-- The chain comes back to a slot. -/
def Loops (pool : Pool levels Body) (link : Link) : Prop :=
  ∃ first second slot, first < second ∧ pool.slotMet? link first = some slot ∧
    pool.slotMet? link second = some slot

/-- The free head and the links at level 0 name only slots that there are. -/
structure Confined (pool : Pool levels Body) : Prop where
  head : ∀ slot ∈ pool.freeHead.slot?, slot < pool.size
  links : ∀ slot < pool.size, ∀ next ∈ (pool.linkOf slot 0).slot?, next < pool.size

variable {pool : Pool levels Body} {link : Link}

section Course

variable {first second slot step : Nat}

/-- From the second slot on the chain is that of the first slot's link. -/
theorem slotMet?_succ (named : link.slot? = some slot) (step : Nat) :
    pool.slotMet? link (step + 1) = pool.slotMet? (pool.linkOf slot 0) step := by
  induction step with
  | zero =>
    show link.slot?.bind _ = _
    rw [named]
    rfl
  | succ step inductionHypothesis =>
    show (pool.slotMet? link (step + 1)).bind _ = _
    rw [inductionHypothesis]
    rfl

/-- After its end there is nothing more of a chain. -/
theorem slotMet?_add_of_none (stopped : pool.slotMet? link step = none) (more : Nat) :
    pool.slotMet? link (step + more) = none := by
  induction more with
  | zero => exact stopped
  | succ more inductionHypothesis =>
    show (pool.slotMet? link (step + more)).bind _ = none
    rw [inductionHypothesis]
    rfl

/-- From a slot on the chain takes the same course whenever it comes there. -/
theorem slotMet?_add_of_eq (same : pool.slotMet? link first = pool.slotMet? link second)
    (more : Nat) : pool.slotMet? link (first + more) = pool.slotMet? link (second + more) := by
  induction more with
  | zero => exact same
  | succ more inductionHypothesis =>
    show (pool.slotMet? link (first + more)).bind _ = (pool.slotMet? link (second + more)).bind _
    rw [inductionHypothesis]

/-- A chain that comes back to a slot does not stop. -/
theorem Loops.not_stops (loops : pool.Loops link) : ¬ pool.Stops link := by
  obtain ⟨first, second, slot, before, atFirst, atSecond⟩ := loops
  rintro ⟨step, stopped⟩
  -- Every step after the second is met earlier, and no step up to the second is an end.
  induction step using Nat.strong_induction_on with
  | _ step inductionHypothesis =>
    by_cases reached : step ≤ second
    · have past := slotMet?_add_of_none stopped (second - step)
      rw [Nat.add_sub_cancel' reached, atSecond] at past
      exact absurd past (by simp)
    · have further : second + (step - second) = step := by omega
      refine inductionHypothesis (first + (step - second)) (by omega) ?_
      rw [slotMet?_add_of_eq (atFirst.trans atSecond.symm), further]
      exact stopped

/-- A chain that stops meets no slot twice. -/
theorem Stops.injOn (stops : pool.Stops link) :
    Set.InjOn (pool.slotMet? link) {step | (pool.slotMet? link step).isSome = true} := by
  have apart : ∀ first second, first < second → (pool.slotMet? link first).isSome = true →
      pool.slotMet? link first ≠ pool.slotMet? link second := by
    intro first second before met same
    obtain ⟨slot, atFirst⟩ := Option.isSome_iff_exists.mp met
    exact Loops.not_stops ⟨first, second, slot, before, atFirst, same.symm.trans atFirst⟩ stops
  intro first firstMet second secondMet same
  rcases Nat.lt_trichotomy first second with before | equal | after
  · exact absurd same (apart first second before firstMet)
  · exact equal
  · exact absurd same.symm (apart second first after secondMet)

/-- A chain that stops meets as many slots as there are in it. -/
theorem Stops.countMet_eq (stops : pool.Stops link) :
    pool.countMet link = (pool.chained link).encard := by
  have slots : pool.slotMet? link '' {step | (pool.slotMet? link step).isSome = true} =
      some '' pool.chained link := by
    ext met
    constructor
    · rintro ⟨step, isSome, rfl⟩
      obtain ⟨slot, named⟩ := Option.isSome_iff_exists.mp isSome
      exact ⟨slot, ⟨step, named⟩, named.symm⟩
    · rintro ⟨slot, ⟨step, named⟩, rfl⟩
      exact ⟨step, Option.isSome_iff_exists.mpr ⟨slot, named⟩, named⟩
  unfold countMet
  rw [← stops.injOn.encard_image, slots, (Option.some_injective Nat).encard_image]

/-- A chain that does not stop meets slots without end. -/
theorem countMet_of_not_stops (endless : ¬ pool.Stops link) : pool.countMet link = ⊤ := by
  have all : {step | (pool.slotMet? link step).isSome = true} = Set.univ :=
    Set.eq_univ_of_forall fun step => Option.isSome_iff_ne_none.mpr fun stopped =>
      endless ⟨step, stopped⟩
  unfold countMet
  rw [all, Set.encard_univ, ENat.card_eq_top_of_infinite]

/-- No slot is met from a link that names none. -/
theorem countMet_of_none (nowhere : link.slot? = none) : pool.countMet link = 0 := by
  unfold countMet
  refine Set.encard_eq_zero.mpr (Set.eq_empty_of_forall_notMem fun step met => ?_)
  have start : pool.slotMet? link 0 = none := nowhere
  have past := slotMet?_add_of_none start step
  rw [Nat.zero_add] at past
  rw [Set.mem_ofPred_eq, past] at met
  exact Bool.false_ne_true met

/-- From a link that names a slot, this slot is met and then those that its own link leads to. -/
theorem countMet_of_slot? (named : link.slot? = some slot) :
    pool.countMet link = pool.countMet (pool.linkOf slot 0) + 1 := by
  have steps : {step | (pool.slotMet? link step).isSome = true} =
      insert 0 (Nat.succ '' {step | (pool.slotMet? (pool.linkOf slot 0) step).isSome = true}) := by
    ext step
    cases step with
    | zero =>
      refine iff_of_true ?_ (Set.mem_insert 0 _)
      exact Option.isSome_iff_exists.mpr ⟨slot, named⟩
    | succ step =>
      rw [Set.mem_insert_iff, Nat.succ_injective.mem_set_image, Set.mem_ofPred_eq,
        Set.mem_ofPred_eq, slotMet?_succ named]
      exact (or_iff_right (Nat.succ_ne_zero step)).symm
  unfold countMet
  rw [steps, Set.encard_insert_of_notMem (by simp), Nat.succ_injective.encard_image]

end Course

/-! ### The loop that counts -/

/-- With some slots counted and a link before it, the loop that counts along level 0 ends with a
figure. It looks first whether the link names a slot, then whether the count has come to the size of
the pool, and only then at the link of the slot. -/
inductive Counting (pool : Pool levels Body) : Nat → Link → Nat → Prop
  | stop {count : Nat} {link : Link} (nowhere : link.slot? = none) :
      Counting pool count link count
  | cut {link : Link} {slot : Nat} (named : link.slot? = some slot) :
      Counting pool pool.size link pool.size
  | further {count slot figure : Nat} {link next : Link} (named : link.slot? = some slot)
      (short : count ≠ pool.size) (there : pool.link? slot 0 = some next)
      (rest : Counting pool (count + 1) next figure) : Counting pool count link figure

/-! ### Chains within the pool -/

namespace Confined

variable {step slot : Nat}

/-- No slot past the end is met. -/
theorem slot_lt (confined : pool.Confined) (inside : ∀ slot ∈ link.slot?, slot < pool.size)
    (met : pool.slotMet? link step = some slot) : slot < pool.size := by
  cases step with
  | zero => exact inside slot met
  | succ step =>
    obtain ⟨before, _, named⟩ := Option.bind_eq_some_iff.mp met
    by_cases there : before < pool.size
    · exact confined.links before there slot named
    · rw [linkOf_of_le (Nat.le_of_not_lt there), Link.slot?_nil] at named
      exact absurd named (by simp)

theorem encard_chained_le (confined : pool.Confined)
    (inside : ∀ slot ∈ link.slot?, slot < pool.size) :
    (pool.chained link).encard ≤ pool.size := by
  have part : pool.chained link ⊆ {slot | slot < pool.size} := fun _ ⟨_, met⟩ =>
    confined.slot_lt inside met
  exact (Set.encard_le_encard part).trans (Set.Nat.encard_range pool.size).le

/-- There are only so many slots, so that a chain which does not stop comes back to one of them. -/
theorem stops_or_loops (confined : pool.Confined)
    (inside : ∀ slot ∈ link.slot?, slot < pool.size) : pool.Stops link ∨ pool.Loops link := by
  refine or_iff_not_imp_left.mpr fun endless => ?_
  have met : ∀ step, ∃ slot : Fin pool.size, pool.slotMet? link step = some slot.val := by
    intro step
    obtain ⟨slot, met⟩ := Option.ne_none_iff_exists'.mp fun stopped => endless ⟨step, stopped⟩
    exact ⟨⟨slot, confined.slot_lt inside met⟩, met⟩
  choose slots named using met
  obtain ⟨first, second, different, same⟩ := Finite.exists_ne_map_eq_of_infinite slots
  rcases Nat.lt_or_gt_of_ne different with before | after
  · exact ⟨first, second, slots first, before, named first, same ▸ named second⟩
  · exact ⟨second, first, slots second, after, named second, same.symm ▸ named first⟩

/-- Within a limit, counting along a chain comes to the number of slots met, or to the limit if that
is less. If the limit is what is left of the size of the pool, this is what the loop adds to its
count until it ends. -/
theorem chainLength_ends (hasLevel : 0 < levels) (confined : pool.Confined) (limit : Nat)
    (inside : ∀ slot ∈ link.slot?, slot < pool.size) :
    ∃ number, pool.chainLength limit link = .ok number ∧
      (number : ℕ∞) = min (limit : ℕ∞) (pool.countMet link) ∧
      ∀ count, count + limit = pool.size → Counting pool count link (count + number) := by
  induction limit generalizing link with
  | zero =>
    refine ⟨0, rfl, (min_eq_left zero_le).symm, fun count full => ?_⟩
    obtain rfl : count = pool.size := full
    cases named : link.slot? with
    | none => exact .stop named
    | some slot => exact .cut named
  | succ limit inductionHypothesis =>
    cases named : link.slot? with
    | none =>
      refine ⟨0, chainLength_of_none named (limit + 1), ?_, fun count _ => .stop named⟩
      rw [countMet_of_none named, min_eq_right zero_le, Nat.cast_zero]
    | some slot =>
      have slotInside : slot < pool.size := inside slot named
      have there := link?_eq_some slotInside hasLevel
      obtain ⟨number, told, counted, ended⟩ :=
        inductionHypothesis (confined.links slot slotInside)
      refine ⟨number + 1, ?_, ?_, fun count left => .further named (by omega) there ?_⟩
      · rw [chainLength_of_slot? named there, told]
        rfl
      · rw [countMet_of_slot? named, Nat.cast_succ, Nat.cast_succ, counted, min_add_add_right]
      · have rest := ended (count + 1) (by omega)
        rwa [Nat.add_right_comm, Nat.add_assoc] at rest

end Confined

/-! ### The figure -/

/-- What a figure of free nodes says about the chain from the free head. -/
structure Figured (pool : Pool levels Body) (number : Nat) : Prop where
  /-- The loop ends with it. -/
  ended : Counting pool 0 pool.freeHead number
  /-- It is the number of slots met, or the size of the pool if that is less. -/
  counted : (number : ℕ∞) = min (pool.size : ℕ∞) (pool.countMet pool.freeHead)
  /-- A chain comes back to a slot or else it stops. -/
  loops_iff : pool.Loops pool.freeHead ↔ ¬ pool.Stops pool.freeHead
  /-- If it comes back, the figure is the size of the pool. -/
  looping : pool.Loops pool.freeHead → number = pool.size
  /-- If it stops, nothing is cut off, and the figure is the number of different slots. -/
  stopping : pool.Stops pool.freeHead →
    (number : ℕ∞) = pool.countMet pool.freeHead ∧
      (number : ℕ∞) = (pool.chained pool.freeHead).encard

/-- Whatever the free head and the links at level 0 say, as long as they name only slots that there
are, the figure of free nodes is told and nothing is changed. -/
theorem available_figures (hasLevel : 0 < levels) (confined : pool.Confined) :
    Operation.Ends (Operation.reading available : Action levels Body Nat) pool
      fun number after => after = pool ∧ Figured pool number := by
  obtain ⟨number, told, counted, ended⟩ :=
    confined.chainLength_ends hasLevel pool.size confined.head
  refine Operation.Ends.reading told ⟨rfl, ?ended, counted, ⟨Loops.not_stops, ?loops⟩,
    fun loops => ?looping, fun stops => ?stopping⟩
  case ended =>
    have rounds := ended 0 (Nat.zero_add pool.size)
    rwa [Nat.zero_add] at rounds
  case loops => exact (confined.stops_or_loops confined.head).resolve_left
  case looping =>
    rw [countMet_of_not_stops loops.not_stops, min_eq_left le_top] at counted
    exact Nat.cast_inj.mp counted
  case stopping =>
    have slots := stops.countMet_eq
    have few := confined.encard_chained_le confined.head
    rw [slots, min_eq_right few] at counted
    exact ⟨counted.trans slots.symm, counted⟩

/-- A pool of four nodes, the first of them live. The last link of its free list, at slot 2, was
overwritten by a marked link to the live node, whose own link leads back to slot 2. -/
def overwritten : Pool 1 Unit :=
  ((threaded 1 4 (by decide) none ()).withLink 2 0 ((Link.ofSlot 0).setMark true)).withLink 0 0
    (Link.ofSlot 2)

theorem confined_overwritten : overwritten.Confined where
  head := by decide +kernel
  links := by
    show ∀ slot < 4, _
    decide +kernel

/-- Slots 1, 2 and 0 are met, and then slot 2 again: the figure is four for three slots. -/
theorem available_figures_overwritten :
    overwritten.Confined ∧ overwritten.Loops overwritten.freeHead ∧
      Operation.Ends (Operation.reading available : Action 1 Unit Nat) overwritten
        fun number after => after = overwritten ∧ number = 4 ∧ Figured overwritten number := by
  have loops : overwritten.Loops overwritten.freeHead :=
    ⟨1, 3, 2, by decide, by decide +kernel, by decide +kernel⟩
  have ends := available_figures Nat.one_pos confined_overwritten
  refine ⟨confined_overwritten, loops, ends.imp fun number after told => ?_⟩
  obtain ⟨same, figured⟩ := told
  exact ⟨same, figured.looping loops, figured⟩

end Pool

end PooledContainers
