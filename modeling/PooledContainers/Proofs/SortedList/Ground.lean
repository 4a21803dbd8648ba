/-
The ground on which the walks of a sorted list stand. What is linked when a walk starts stands in a
line, in strictly ascending order of the keys, and the marks of the links tell which of it is dead.
A walk leaves the bodies and all counts but its own as they were; it takes dead nodes off the list
and changes the links in no other way.
-/

import PooledContainers.Proofs.Tidying
import PooledContainers.SortedList.Search

namespace PooledContainers

namespace SortedList

open Line Operation

instance : Inhabited Entry := ⟨⟨0, 0⟩⟩

/-- Whether the link of a slot's node is marked. -/
def Marked (pool : Pool 1 Entry) (slot : Nat) : Prop := (pool.linkOf slot 0).isMarked = true

instance (pool : Pool 1 Entry) (slot : Nat) : Decidable (Marked pool slot) :=
  inferInstanceAs (Decidable (_ = true))

/-- Nothing but the link matters. -/
theorem marked_congr {pool after : Pool 1 Entry} {slot : Nat}
    (link : after.linkOf slot 0 = pool.linkOf slot 0) : Marked after slot ↔ Marked pool slot := by
  unfold Marked
  rw [link]

theorem not_marked_of_linkOf {pool : Pool 1 Entry} {slot next : Nat}
    (leads : pool.linkOf slot 0 = Link.ofSlot next) (limit : next < Link.slotLimit) :
    ¬ Marked pool slot := by
  unfold Marked
  rw [leads, Link.isMarked_ofSlot limit]
  exact Bool.false_ne_true

theorem not_marked_of_nil {pool : Pool 1 Entry} {slot : Nat}
    (nil : pool.linkOf slot 0 = Link.nil) : ¬ Marked pool slot := by
  unfold Marked
  rw [nil, Link.isMarked_nil]
  exact Bool.false_ne_true

theorem marked_of_cleared {pool : Pool 1 Entry} {slot : Nat}
    (isCleared : pool.linkOf slot 0 = Link.cleared) : Marked pool slot := by
  unfold Marked
  rw [isCleared]
  exact Link.isMarked_cleared

theorem inside_of_marked {pool : Pool 1 Entry} {slot : Nat} (marked : Marked pool slot) :
    slot < pool.size :=
  Pool.slot_lt_size_of_linkOf_ne_nil fun nil => not_marked_of_nil nil marked

/-- The key of a slot's node. -/
def keyOf (pool : Pool 1 Entry) (slot : Nat) : Int64 := (pool.bodyOf slot).key

theorem keyOf_congr {pool after : Pool 1 Entry} {slot : Nat}
    (body : after.bodyOf slot = pool.bodyOf slot) : keyOf after slot = keyOf pool slot :=
  congrArg Entry.key body

/-! ### What is linked -/

/-- The nodes of a line are what is linked, in strictly ascending order of their keys. -/
structure Strung (line : List Nat) (pool : Pool 1 Entry) : Prop where
  distinct : (spine line).Nodup
  inside : ∀ slot ∈ spine line, slot < pool.size
  sorted : ∀ front ∈ line, ∀ behind ∈ line, rank line front < rank line behind →
    keyOf pool front < keyOf pool behind
  threaded : Threaded line pool 0
  linked : ∀ slot ∈ line, pool.Linked 0 slot
  headUnmarked : ¬ Marked pool headSlot
  tailNil : pool.linkOf tailSlot 0 = Link.nil

/-- Only keys of the line matter, and where the links lead. -/
theorem Strung.congr {line : List Nat} {pool after : Pool 1 Entry} (strung : Strung line pool)
    (size : after.size = pool.size) (key : ∀ slot ∈ line, keyOf after slot = keyOf pool slot)
    (next? : ∀ slot ∈ headSlot :: line, after.next? 0 slot = pool.next? 0 slot)
    (headUnmarked : ¬ Marked after headSlot) (tailNil : after.linkOf tailSlot 0 = Link.nil) :
    Strung line after where
  distinct := strung.distinct
  inside slot member := size.symm ▸ strung.inside slot member
  sorted front frontMember behind behindMember before := by
    rw [key front frontMember, key behind behindMember]
    exact strung.sorted front frontMember behind behindMember before
  threaded := strung.threaded.congr next?
  linked slot member := (strung.linked slot member).congr
    (next? slot (List.mem_cons_of_mem _ member))
  headUnmarked := headUnmarked
  tailNil := tailNil

/-- What was taken off the list is not in the line. -/
theorem Strung.not_mem_of_cleared {line : List Nat} {pool : Pool 1 Entry} {slot : Nat}
    (strung : Strung line pool) (cleared : pool.linkOf slot 0 = Link.cleared) :
    slot ∉ headSlot :: line := by
  have off := Pool.not_linked_of_cleared cleared
  intro member
  rcases List.mem_cons.mp member with rfl | inLine
  · exact off strung.threaded.head
  · exact off (strung.linked slot inLine)

/-- What outlasts a walk: the line and all but the links as they stand in a pool, and a count at
least on whatever stands in the line. -/
structure Ground where
  /-- The line. -/
  line : List Nat
  /-- The pool in which the walk starts. -/
  start : Pool 1 Entry
  /-- The counters but for what walks hold. -/
  base : Nat → Nat
  strung : Strung line start
  outlasting : ∀ slot ∈ spine line, 2 ≤ base slot

namespace Ground

variable (ground : Ground)

/-- The distance of a slot from the head. -/
abbrev rank (slot : Nat) : Nat := Line.rank ground.line slot

theorem rank_head : ground.rank headSlot = 0 := Line.rank_head ground.line

/-- The key of a slot's node. -/
abbrev key (slot : Nat) : Int64 := keyOf ground.start slot

/-- Whether a slot's node is deleted. -/
abbrev Dead (slot : Nat) : Prop := Marked ground.start slot

/-- Dead nodes were taken off the list. -/
abbrev Tidies (pool after : Pool 1 Entry) : Prop :=
  Tidied ground.line ground.Dead 0 ground.line.length pool after

variable {first second : Nat}

theorem rank_lt_of_key_lt (firstMember : first ∈ ground.line) (secondMember : second ∈ ground.line)
    (smaller : ground.key first < ground.key second) : ground.rank first < ground.rank second := by
  rcases Nat.lt_trichotomy (ground.rank first) (ground.rank second) with before | same | behind
  · exact before
  · rw [rank_injective (mem_spine_of_mem firstMember) same] at smaller
    exact absurd smaller Int64.lt_irrefl
  · exact absurd smaller (Int64.lt_asymm
      (ground.strung.sorted second secondMember first firstMember behind))

theorem rank_le_of_key_le (firstMember : first ∈ ground.line) (secondMember : second ∈ ground.line)
    (le : ground.key first ≤ ground.key second) : ground.rank first ≤ ground.rank second := by
  refine Nat.le_of_not_lt fun behind => ?_
  exact Int64.not_lt.mpr le (ground.strung.sorted second secondMember first firstMember behind)

theorem mem_line_of_dead (member : first ∈ headSlot :: ground.line) (dead : ground.Dead first) :
    first ∈ ground.line := by
  rcases List.mem_cons.mp member with rfl | inLine
  · exact absurd dead ground.strung.headUnmarked
  · exact inLine

end Ground

/-! ### What a walk holds -/

/-- A pool on its ground: all but the links as they were, no more than dead nodes taken off, and the
counters as they were but for counts held for a while. -/
structure Ground.Holds (ground : Ground) (temporary : List Nat) (pool : Pool 1 Entry) : Prop where
  tidied : ground.Tidies ground.start pool
  threaded : Threaded ground.line pool 0
  held : Held ground.base temporary pool

namespace Ground.Holds

variable {ground : Ground} {temporary : List Nat} {pool : Pool 1 Entry} {slot : Nat}

theorem size (holds : ground.Holds temporary pool) : pool.size = ground.start.size :=
  holds.tidied.size

theorem inside (holds : ground.Holds temporary pool) (member : slot ∈ spine ground.line) :
    slot < pool.size := by
  rw [holds.size]
  exact ground.strung.inside slot member

theorem perm (holds : ground.Holds temporary pool) {others : List Nat}
    (permutation : temporary.Perm others) : ground.Holds others pool :=
  { holds with held := holds.held.perm permutation }

theorem swap {first second : Nat} (holds : ground.Holds (first :: second :: temporary) pool) :
    ground.Holds (second :: first :: temporary) pool :=
  holds.perm (List.Perm.swap second first temporary)

/-! ### Readings -/

/-- The marks are as they were. -/
theorem isMarked_eq (holds : ground.Holds temporary pool) (slot : Nat) :
    (pool.linkOf slot 0).isMarked = decide (ground.Dead slot) := by
  by_cases dead : ground.Dead slot
  · rw [decide_eq_true dead]
    exact holds.tidied.marked slot 0 dead
  · rw [decide_eq_false dead, holds.tidied.unmarked slot dead]
    exact Bool.eq_false_iff.mpr dead

theorem marked_iff (holds : ground.Holds temporary pool) (slot : Nat) :
    Marked pool slot ↔ ground.Dead slot := by
  show (pool.linkOf slot 0).isMarked = true ↔ _
  rw [holds.isMarked_eq, decide_eq_true_eq]

/-- What is not dead is linked. -/
theorem linked_of_alive (holds : ground.Holds temporary pool)
    (member : slot ∈ headSlot :: ground.line) (alive : ¬ ground.Dead slot) :
    pool.Linked 0 slot := by
  refine holds.tidied.kept slot alive 0 ?_
  rcases List.mem_cons.mp member with rfl | inLine
  · exact ground.strung.threaded.head
  · exact ground.strung.linked slot inLine

/-- The link of a node that is not dead is the unmarked link to its neighbour. -/
theorem exists_next (holds : ground.Holds temporary pool) (member : slot ∈ headSlot :: ground.line)
    (alive : ¬ ground.Dead slot) : ∃ next, pool.linkOf slot 0 = Link.ofSlot next ∧
      pool.next? 0 slot = some next ∧ Adjacent ground.line pool 0 slot next := by
  obtain ⟨next, leads⟩ := (holds.linked_of_alive member alive).exists_next?
  refine ⟨next, Link.eq_ofSlot leads ?_, leads, holds.threaded.adjacent slot member next leads⟩
  rw [holds.isMarked_eq, decide_eq_false alive]

/-- A node that was taken off the list is left with a cleared link. -/
theorem cleared_of_not_linked (holds : ground.Holds temporary pool) (member : slot ∈ ground.line)
    (off : ¬ pool.Linked 0 slot) : pool.linkOf slot 0 = Link.cleared := by
  have there : pool.linkOf slot 0 ≠ Link.nil :=
    holds.tidied.linkOf_ne_nil (ground.strung.linked slot member).ne_nil
  exact (Link.eq_nil_or_eq_cleared (Option.not_isSome_iff_eq_none.mp off)).resolve_left there

/-- The unmarked link of the head or of a node leads to its neighbour. -/
theorem adjacent (holds : ground.Holds temporary pool) {next : Nat}
    (member : slot ∈ headSlot :: ground.line) (leads : pool.linkOf slot 0 = Link.ofSlot next)
    (inside : next < pool.size) : Adjacent ground.line pool 0 slot next :=
  holds.threaded.adjacent slot member next
    (Pool.next?_of_linkOf leads (Pool.size_lt_slotLimit inside))

/-! ### Single actions -/

theorem bodyAt_ends (holds : ground.Holds temporary pool)
    {condition : Entry → Pool 1 Entry → Prop} (member : slot ∈ spine ground.line)
    (goal : condition (ground.start.bodyOf slot) pool) : Ends (Pool.bodyAt slot) pool condition :=
  Pool.bodyAt_ends (holds.inside member) ((holds.tidied.body slot).symm ▸ goal)

theorem linkAt_ends (holds : ground.Holds temporary pool) {condition : Link → Pool 1 Entry → Prop}
    (member : slot ∈ spine ground.line) (goal : condition (pool.linkOf slot 0) pool) :
    Ends (Pool.linkAt slot 0) pool condition :=
  Pool.linkAt_ends (holds.inside member) Nat.zero_lt_one goal

theorem recount (holds : ground.Holds temporary pool) {others : List Nat} {counter : Nat}
    (held : Held ground.base others (pool.recount slot counter)) :
    ground.Holds others (pool.recount slot counter) where
  tidied := holds.tidied.recount slot counter
  threaded := holds.threaded.congr fun other _ => Pool.next?_recount pool slot counter 0 other
  held := held

theorem retain_ends (holds : ground.Holds temporary pool) {condition : Unit → Pool 1 Entry → Prop}
    (member : slot ∈ spine ground.line)
    (goal : ground.Holds (slot :: temporary) (pool.retained slot) →
      condition () (pool.retained slot)) : Ends (Pool.retain slot) pool condition :=
  Pool.retain_ends (holds.inside member)
    (goal (holds.recount (holds.held.retained (holds.inside member))))

theorem release_ends (holds : ground.Holds (slot :: temporary) pool)
    {condition : Unit → Pool 1 Entry → Prop} (member : slot ∈ spine ground.line)
    (goal : ground.Holds temporary (pool.surrendered slot) →
      condition () (pool.surrendered slot)) : Ends (Pool.release slot) pool condition :=
  holds.held.release_ends (holds.inside member) (ground.outlasting slot member) fun held =>
    goal (holds.recount held)

/-- A walk gives up both nodes of a position. -/
theorem releaseBoth_ends {first second : Nat}
    (holds : ground.Holds (first :: second :: temporary) pool)
    {condition : Unit → Pool 1 Entry → Prop} (firstMember : first ∈ spine ground.line)
    (secondMember : second ∈ spine ground.line)
    (goal : ground.Holds (second :: temporary) (pool.surrendered first) →
      ground.Holds temporary ((pool.surrendered first).surrendered second) →
        condition () ((pool.surrendered first).surrendered second)) :
    Ends (Pool.releaseAll [first, second]) pool condition :=
  holds.held.releaseBoth_ends (holds.inside firstMember) (holds.inside secondMember)
    (ground.outlasting first firstMember) (ground.outlasting second secondMember)
    fun released done => goal (holds.recount released) ((holds.recount released).recount done)

/-- Swinging a link past a dead node. -/
theorem bypassed (holds : ground.Holds temporary pool) {prev node next : Nat}
    (prevMember : prev ∈ headSlot :: ground.line) (nodeMember : node ∈ ground.line)
    (dead : ground.Dead node) (leads : pool.linkOf prev 0 = Link.ofSlot node)
    (further : pool.next? 0 node = some next) :
    ground.Holds temporary (pool.bypassed prev node next 0) := by
  have prevInside := holds.inside (mem_spine_of_mem_cons prevMember)
  have nodeInside := holds.inside (mem_spine_of_mem nodeMember)
  have prevTo : pool.next? 0 prev = some node :=
    Pool.next?_of_linkOf leads (Pool.size_lt_slotLimit nodeInside)
  have before := (holds.threaded.adjacent prev prevMember node prevTo).before
  have near : ground.rank node ≤ ground.line.length :=
    rank_le_length ground.strung.distinct (List.mem_cons_of_mem _ nodeMember)
  exact {
    tidied := holds.tidied.trans (Tidied.bypass Nat.zero_lt_one prevInside nodeInside prevMember
      nodeMember dead (Nat.le_refl 0) before near leads further)
    threaded := holds.threaded.bypassed ground.strung.distinct Nat.zero_lt_one prevInside
      nodeInside prevMember nodeMember prevTo further
    held := holds.held.congr (Pool.size_bypassed prev node next 0)
      (Pool.counterOf_bypassed prevInside nodeInside) }

end Ground.Holds

end SortedList

end PooledContainers
