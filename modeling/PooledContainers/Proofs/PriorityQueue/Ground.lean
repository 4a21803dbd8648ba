/-
The ground on which the walks of a priority queue stand. The roster says who stands in the line:
keys ascend, an entry that is not deleted is in front of all others with its key, a reference back
leads towards the head. The lanes say how the links thread the line at each level. Walks keep the
roster, the bodies and all counts but their own as they were; they change the lanes only by
finishing deletions.
-/

import PooledContainers.PriorityQueue.Helping
import PooledContainers.Proofs.Tidying

namespace PooledContainers

namespace PriorityQueue

open Line Operation

instance : Inhabited Entry := ⟨⟨0, ⟨0⟩, 0, 0⟩⟩

/-- Whether the deletion of a slot's node is committed. -/
def Deleted (pool : Pool maxLevels Entry) (slot : Nat) : Prop :=
  (pool.bodyOf slot).datum.isDeleted = true

instance (pool : Pool maxLevels Entry) (slot : Nat) : Decidable (Deleted pool slot) :=
  inferInstanceAs (Decidable (_ = true))

/-- The key of a slot's node. -/
def keyOf (pool : Pool maxLevels Entry) (slot : Nat) : UInt64 := (pool.bodyOf slot).key

/-! ### Links that a node reaches -/

section Reaching

variable {pool : Pool maxLevels Entry} {node level : Nat} (inside : node < pool.size)
  (fits : level < (pool.bodyOf node).height)

include inside fits

theorem requireLevel_ends {condition : Unit → Pool maxLevels Entry → Prop}
    (holds : condition () pool) : Ends (requireLevel node level) pool condition := by
  unfold requireLevel
  refine Ends.bind (Pool.bodyAt_ends inside ?_)
  rw [if_pos fits]
  exact Ends.pure holds

variable (reached : level < maxLevels)

include reached

theorem linkAt_ends {condition : Link → Pool maxLevels Entry → Prop}
    (holds : condition (pool.linkOf node level) pool) : Ends (linkAt node level) pool condition :=
  Ends.bind (requireLevel_ends inside fits (Pool.linkAt_ends inside reached holds))

theorem setLink_ends {link : Link} {condition : Unit → Pool maxLevels Entry → Prop}
    (holds : condition () (pool.withLink node level link)) :
    Ends (setLink node level link) pool condition :=
  Ends.bind (requireLevel_ends inside fits (Pool.setLink_ends inside reached holds))

/-- A swap that finds what it expects replaces the link. -/
theorem swapLink_ends {expected replacement : Link}
    {condition : Bool → Pool maxLevels Entry → Prop} (found : pool.linkOf node level = expected)
    (holds : condition true (pool.withLink node level replacement)) :
    Ends (swapLink node level expected replacement) pool condition :=
  Ends.bind (requireLevel_ends inside fits (Pool.swapLink_ends inside reached found holds))

theorem markLink_ends {condition : Bool → Pool maxLevels Entry → Prop}
    (unmarked : (pool.linkOf node level).isMarked = false)
    (holds : condition true
      (pool.withLink node level ((pool.linkOf node level).setMark true))) :
    Ends (markLink node level) pool condition :=
  Ends.bind (requireLevel_ends inside fits (Pool.markLink_ends inside reached unmarked holds))

theorem markLink_ends_of_isMarked {condition : Bool → Pool maxLevels Entry → Prop}
    (marked : (pool.linkOf node level).isMarked = true) (holds : condition false pool) :
    Ends (markLink node level) pool condition :=
  Ends.bind (requireLevel_ends inside fits
    (Pool.markLink_ends_of_isMarked inside reached marked holds))

end Reaching

/-! ### Who stands in the line -/

/-- What holds of the bodies of a line. -/
structure Muster (maxHeight : Nat) (line : List Nat) (pool : Pool maxLevels Entry) : Prop where
  distinct : (spine line).Nodup
  inside : ∀ slot ∈ spine line, slot < pool.size
  heights : 1 ≤ maxHeight ∧ maxHeight ≤ maxLevels
  /-- Keys ascend, and only the first node with a key may be live. -/
  sorted : ∀ front ∈ line, ∀ behind ∈ line, rank line front < rank line behind →
    keyOf pool front < keyOf pool behind ∨
      keyOf pool front = keyOf pool behind ∧ Deleted pool behind
  headHeight : (pool.bodyOf headSlot).height = maxHeight
  headValid : (pool.bodyOf headSlot).validHeight = maxHeight
  headAlive : ¬ Deleted pool headSlot
  tailAlive : ¬ Deleted pool tailSlot
  heightPos : ∀ slot ∈ line, 1 ≤ (pool.bodyOf slot).height
  heightLe : ∀ slot ∈ line, (pool.bodyOf slot).height ≤ maxHeight
  validLe : ∀ slot ∈ line, (pool.bodyOf slot).validHeight ≤ (pool.bodyOf slot).height
  /-- A deleted node has been linked at all of its levels. -/
  validDeleted : ∀ slot ∈ line, Deleted pool slot →
    (pool.bodyOf slot).validHeight = (pool.bodyOf slot).height

/-- What holds of the nodes of a line apart from their links. -/
structure Roster (maxHeight : Nat) (line : List Nat) (pool : Pool maxLevels Entry) : Prop
    extends Muster maxHeight line pool where
  /-- A reference back names the head or a node with a smaller key. -/
  back : ∀ slot ∈ line, ∀ hint, pool.back? slot = some hint →
    hint = headSlot ∨ hint ∈ line ∧ keyOf pool hint < keyOf pool slot
  backAlive : ∀ slot ∈ line, ¬ Deleted pool slot → pool.back? slot = none
  backThere : ∀ slot < pool.size, (pool.backOf slot).isSome = true

/-- What outlasts a walk: the number of levels, the line, the bodies and references back as they
stand in a pool, and a count at least on whatever stands in the line. -/
structure Ground where
  /-- The number of levels in use. -/
  maxHeight : Nat
  /-- The line. -/
  line : List Nat
  /-- A pool with the bodies and references back. -/
  start : Pool maxLevels Entry
  /-- The counters but for what walks hold. -/
  base : Nat → Nat
  roster : Roster maxHeight line start
  outlasting : ∀ slot ∈ spine line, 2 ≤ base slot

namespace Ground

variable (ground : Ground)

/-- The distance of a slot from the head. -/
abbrev rank (slot : Nat) : Nat := Line.rank ground.line slot

theorem rank_head : ground.rank headSlot = 0 := Line.rank_head ground.line

/-- The key of a slot's node. -/
abbrev key (slot : Nat) : UInt64 := keyOf ground.start slot

/-- Whether the deletion of a slot's node is committed. -/
abbrev Dead (slot : Nat) : Prop := Deleted ground.start slot

/-- The height of a slot's node. -/
abbrev height (slot : Nat) : Nat := (ground.start.bodyOf slot).height

/-- The number of valid levels of a slot's node. -/
abbrev validHeight (slot : Nat) : Nat := (ground.start.bodyOf slot).validHeight

/-- Deletions were finished at levels from one up, at ranks up to a bound. -/
abbrev Tidies (level bound : Nat) (pool after : Pool maxLevels Entry) : Prop :=
  Tidied ground.line ground.Dead level bound pool after

theorem rank_lt_of_key_lt {front behind : Nat} (frontMember : front ∈ ground.line)
    (behindMember : behind ∈ ground.line) (smaller : ground.key front < ground.key behind) :
    ground.rank front < ground.rank behind := by
  rcases Nat.lt_trichotomy (ground.rank front) (ground.rank behind) with before | same | after
  · exact before
  · rw [rank_injective (mem_spine_of_mem frontMember) same] at smaller
    exact absurd smaller (UInt64.lt_irrefl _)
  · rcases ground.roster.sorted behind behindMember front frontMember after with less | ⟨equal, -⟩
    · exact absurd smaller (UInt64.lt_asymm less)
    · unfold key at smaller
      rw [equal] at smaller
      exact absurd smaller (UInt64.lt_irrefl _)

theorem key_le_of_rank_le {front behind : Nat} (frontMember : front ∈ ground.line)
    (behindMember : behind ∈ ground.line) (before : ground.rank front ≤ ground.rank behind) :
    ground.key front ≤ ground.key behind := by
  refine UInt64.not_lt.mp fun smaller => ?_
  exact absurd (ground.rank_lt_of_key_lt behindMember frontMember smaller) (Nat.not_lt_of_le before)

theorem height_le {slot : Nat} (member : slot ∈ headSlot :: ground.line) :
    ground.height slot ≤ ground.maxHeight := by
  rcases List.mem_cons.mp member with rfl | inLine
  · exact Nat.le_of_eq ground.roster.headHeight
  · exact ground.roster.heightLe slot inLine

theorem head_of_not_mem {slot : Nat} (member : slot ∈ headSlot :: ground.line)
    (outside : slot ∉ ground.line) : slot = headSlot :=
  (List.mem_cons.mp member).resolve_right outside

theorem not_dead_head : ¬ ground.Dead headSlot := ground.roster.headAlive

theorem mem_line_of_dead {slot : Nat} (member : slot ∈ headSlot :: ground.line)
    (dead : ground.Dead slot) : slot ∈ ground.line := by
  rcases List.mem_cons.mp member with rfl | inLine
  · exact absurd dead ground.not_dead_head
  · exact inLine

end Ground

/-! ### How the levels are threaded -/

/-- What holds of the links of a line, given the bodies of its nodes. -/
structure Lanes (maxHeight : Nat) (line : List Nat) (start pool : Pool maxLevels Entry) :
    Prop where
  threaded : ∀ level < maxHeight, Threaded line pool level
  headUnmarked : ∀ level, (pool.linkOf headSlot level).isMarked = false
  tailNil : ∀ level, pool.linkOf tailSlot level = Link.nil
  /-- A link is marked only if its node is deleted. -/
  marked : ∀ slot ∈ line, ∀ level, (pool.linkOf slot level).isMarked = true → Deleted start slot
  /-- Valid levels have been linked. -/
  valid : ∀ slot ∈ headSlot :: line, ∀ level < (start.bodyOf slot).validHeight,
    pool.linkOf slot level ≠ Link.nil
  /-- Nodes are linked from the bottom up, -/
  down : ∀ slot ∈ headSlot :: line, ∀ level, ∀ below ≤ level,
    pool.linkOf slot level ≠ Link.nil → pool.linkOf slot below ≠ Link.nil
  /-- and no higher than they reach. -/
  top : ∀ slot ∈ headSlot :: line, ∀ level, pool.linkOf slot level ≠ Link.nil →
    level < (start.bodyOf slot).height

/-- The links of a pool are as the ground has them. -/
abbrev Ground.Laned (ground : Ground) (pool : Pool maxLevels Entry) : Prop :=
  Lanes ground.maxHeight ground.line ground.start pool

namespace Lanes

variable {ground : Ground} {pool after : Pool maxLevels Entry}

theorem level_lt (lanes : ground.Laned pool) {slot level : Nat}
    (member : slot ∈ headSlot :: ground.line) (there : pool.linkOf slot level ≠ Link.nil) :
    level < ground.maxHeight :=
  Nat.lt_of_lt_of_le (lanes.top slot member level there) (ground.height_le member)

theorem unmarked (lanes : ground.Laned pool) {slot : Nat}
    (member : slot ∈ headSlot :: ground.line) (alive : ¬ ground.Dead slot) (level : Nat) :
    (pool.linkOf slot level).isMarked = false := by
  rcases List.mem_cons.mp member with rfl | inLine
  · exact lanes.headUnmarked level
  · exact Bool.eq_false_iff.mpr fun marked => alive (lanes.marked slot inLine level marked)

/-- An unmarked link that has been set leads to a neighbour. -/
theorem exists_next (lanes : ground.Laned pool) {slot level : Nat}
    (member : slot ∈ headSlot :: ground.line) (there : pool.linkOf slot level ≠ Link.nil)
    (unmarked : (pool.linkOf slot level).isMarked = false) :
    ∃ next, pool.next? level slot = some next ∧ Adjacent ground.line pool level slot next := by
  cases found : pool.next? level slot with
  | none =>
    rcases Link.eq_nil_or_eq_cleared found with nil | cleared
    · exact absurd nil there
    · rw [cleared, Link.isMarked_cleared] at unmarked
      exact absurd unmarked.symm Bool.false_ne_true
  | some next =>
    exact ⟨next, rfl,
      (lanes.threaded level (lanes.level_lt member there)).adjacent slot member next found⟩

/-- Lanes stay lanes under tidying, as long as the levels stay threaded. -/
theorem of_tidied (lanes : ground.Laned pool) {level bound : Nat}
    (tidied : ground.Tidies level bound pool after)
    (threaded : ∀ level < ground.maxHeight, Threaded ground.line after level) :
    ground.Laned after where
  threaded := threaded
  headUnmarked level := by
    rw [tidied.unmarked headSlot ground.not_dead_head]
    exact lanes.headUnmarked level
  tailNil level := by
    have apart : tailSlot ∉ headSlot :: ground.line := by
      rw [List.mem_cons]
      rintro (same | member)
      · exact absurd same (by decide)
      · exact tail_not_mem ground.roster.distinct member
    rw [tidied.outside tailSlot apart]
    exact lanes.tailNil level
  marked slot member level marked := by
    by_contra alive
    rw [tidied.unmarked slot alive] at marked
    exact alive (lanes.marked slot member level marked)
  valid slot member level low := tidied.linkOf_ne_nil (lanes.valid slot member level low)
  down slot member level below le there :=
    tidied.linkOf_ne_nil (lanes.down slot member level below le fun nil =>
      there ((tidied.nil slot level).mpr nil))
  top slot member level there :=
    lanes.top slot member level fun nil => there ((tidied.nil slot level).mpr nil)

theorem recount (lanes : ground.Laned pool) (slot counter : Nat) :
    ground.Laned (pool.recount slot counter) :=
  lanes.of_tidied (Tidied.of_recount _ _ 0 0 pool slot counter) fun level low =>
    (lanes.threaded level low).congr fun other _ => Pool.next?_recount pool slot counter level other

/-- Marking a link of a deleted node. -/
theorem mark (lanes : ground.Laned pool) {slot level : Nat} (inside : slot < pool.size)
    (reached : level < maxLevels) (member : slot ∈ ground.line) (dead : ground.Dead slot)
    (there : pool.linkOf slot level ≠ Link.nil) :
    ground.Laned (pool.withLink slot level ((pool.linkOf slot level).setMark true)) := by
  exact lanes.of_tidied (Tidied.mark inside reached member dead (Nat.zero_le _) (Nat.le_refl _)
    there) fun other low => (lanes.threaded other low).congr fun slot' _ =>
      Pool.next?_marked inside reached other slot'

/-- Swinging a link past a deleted node. -/
theorem bypass (lanes : ground.Laned pool) {prev node next level : Nat}
    (reached : level < maxLevels) (prevInside : prev < pool.size) (nodeInside : node < pool.size)
    (prevMember : prev ∈ headSlot :: ground.line) (nodeMember : node ∈ ground.line)
    (dead : ground.Dead node) (prevTo : pool.linkOf prev level = Link.ofSlot node)
    (nodeTo : pool.next? level node = some next) (before : ground.rank prev < ground.rank node) :
    ground.Laned (pool.bypassed prev node next level) := by
  refine lanes.of_tidied (Tidied.bypass reached prevInside nodeInside prevMember nodeMember dead
    (Nat.zero_le _) before (Nat.le_refl _) prevTo nodeTo) fun other low => ?_
  by_cases here : other = level
  · subst here
    exact (lanes.threaded other low).bypassed ground.roster.distinct reached prevInside nodeInside
      prevMember nodeMember
      (Pool.next?_of_linkOf prevTo (Pool.size_lt_slotLimit nodeInside)) nodeTo
  · exact (lanes.threaded other low).congr fun slot _ => Pool.next?_congr
      (Pool.linkOf_bypassed_of_ne reached prevInside nodeInside (fun same => here same.2)
        fun same => here same.2)

end Lanes

/-! ### What a walk holds -/

/-- A pool on its ground: bodies, references back and all else but the lanes as they were, and the
counters as they were but for counts held for a while. -/
structure Ground.Holds (ground : Ground) (temporary : List Nat)
    (pool : Pool maxLevels Entry) : Prop where
  tidied : ground.Tidies 0 ground.line.length ground.start pool
  lanes : ground.Laned pool
  held : Held ground.base temporary pool

namespace Ground.Holds

variable {ground : Ground} {temporary : List Nat} {pool after : Pool maxLevels Entry}

theorem size (holds : ground.Holds temporary pool) : pool.size = ground.start.size :=
  holds.tidied.size

theorem inside (holds : ground.Holds temporary pool) {slot : Nat}
    (member : slot ∈ spine ground.line) : slot < pool.size := by
  rw [holds.size]
  exact ground.roster.inside slot member

theorem perm (holds : ground.Holds temporary pool) {others : List Nat}
    (permutation : temporary.Perm others) : ground.Holds others pool :=
  { holds with held := holds.held.perm permutation }

theorem swap {first second : Nat} (holds : ground.Holds (first :: second :: temporary) pool) :
    ground.Holds (second :: first :: temporary) pool :=
  holds.perm (List.Perm.swap second first temporary)

/-- A walk that tidies and leaves the lanes lanes stays on its ground. -/
theorem of_tidied (holds : ground.Holds temporary pool) {level bound : Nat}
    (tidied : ground.Tidies level bound pool after) (boundLe : bound ≤ ground.line.length)
    (lanes : ground.Laned after) {others : List Nat} (held : Held ground.base others after) :
    ground.Holds others after :=
  ⟨holds.tidied.trans (tidied.weaken (Nat.zero_le level) boundLe), lanes, held⟩

theorem bodyAt_ends (holds : ground.Holds temporary pool) {slot : Nat}
    {condition : Entry → Pool maxLevels Entry → Prop} (member : slot ∈ spine ground.line)
    (goal : condition (ground.start.bodyOf slot) pool) :
    Ends (Pool.bodyAt slot) pool condition :=
  Pool.bodyAt_ends (holds.inside member) ((holds.tidied.body slot).symm ▸ goal)

/-- A link that has been set is within its node's height. -/
theorem fits (holds : ground.Holds temporary pool) {slot level : Nat}
    (member : slot ∈ headSlot :: ground.line) (there : pool.linkOf slot level ≠ Link.nil) :
    level < (pool.bodyOf slot).height := by
  rw [holds.tidied.body]
  exact holds.lanes.top slot member level there

theorem linkAt_ends (holds : ground.Holds temporary pool) {slot level : Nat}
    {condition : Link → Pool maxLevels Entry → Prop} (member : slot ∈ headSlot :: ground.line)
    (there : pool.linkOf slot level ≠ Link.nil) (goal : condition (pool.linkOf slot level) pool) :
    Ends (linkAt slot level) pool condition :=
  PriorityQueue.linkAt_ends (holds.inside (mem_spine_of_mem_cons member)) (holds.fits member there)
    (Nat.lt_of_lt_of_le (holds.lanes.level_lt member there) ground.roster.heights.2) goal

/-- Counting keeps a walk on its ground. -/
theorem recount (holds : ground.Holds temporary pool) {others : List Nat} {slot counter : Nat}
    (held : Held ground.base others (pool.recount slot counter)) :
    ground.Holds others (pool.recount slot counter) :=
  ⟨holds.tidied.recount slot counter, holds.lanes.recount slot counter, held⟩

theorem retain_ends (holds : ground.Holds temporary pool) {slot : Nat}
    {condition : Unit → Pool maxLevels Entry → Prop} (member : slot ∈ spine ground.line)
    (goal : ground.Holds (slot :: temporary) (pool.retained slot) →
      condition () (pool.retained slot)) : Ends (Pool.retain slot) pool condition :=
  Pool.retain_ends (holds.inside member)
    (goal (holds.recount (holds.held.retained (holds.inside member))))

theorem release_ends {slot : Nat} (holds : ground.Holds (slot :: temporary) pool)
    {condition : Unit → Pool maxLevels Entry → Prop} (member : slot ∈ spine ground.line)
    (goal : ground.Holds temporary (pool.surrendered slot) →
      condition () (pool.surrendered slot)) : Ends (Pool.release slot) pool condition :=
  holds.held.release_ends (holds.inside member) (ground.outlasting slot member) fun held =>
    goal (holds.recount held)

/-- A walk gives up both nodes of a position. -/
theorem releaseBoth_ends {first second : Nat}
    (holds : ground.Holds (first :: second :: temporary) pool)
    {condition : Unit → Pool maxLevels Entry → Prop} (firstMember : first ∈ spine ground.line)
    (secondMember : second ∈ spine ground.line)
    (goal : ground.Holds (second :: temporary) (pool.surrendered first) →
      ground.Holds temporary ((pool.surrendered first).surrendered second) →
        condition () ((pool.surrendered first).surrendered second)) :
    Ends (Pool.releaseAll [first, second]) pool condition :=
  holds.held.releaseBoth_ends (holds.inside firstMember) (holds.inside secondMember)
    (ground.outlasting first firstMember) (ground.outlasting second secondMember)
    fun released done => goal (holds.recount released) ((holds.recount released).recount done)

theorem isDeleted_ends (holds : ground.Holds temporary pool) {slot : Nat}
    {condition : Bool → Pool maxLevels Entry → Prop} (member : slot ∈ spine ground.line)
    (goal : condition (decide (ground.Dead slot)) pool) :
    Ends (isDeleted slot) pool condition := by
  unfold isDeleted
  refine Ends.bind (holds.bodyAt_ends member (Ends.pure ?_))
  have same : decide (ground.Dead slot) = (ground.start.bodyOf slot).datum.isDeleted := by
    unfold Dead Deleted
    exact Bool.decide_eq_true
  exact same ▸ goal

theorem standsBefore_ends (holds : ground.Holds temporary pool) {slot : Nat} {key : UInt64}
    {condition : Bool → Pool maxLevels Entry → Prop} (member : slot ∈ spine ground.line)
    (goal : condition (decide (slot ≠ tailSlot ∧ ground.key slot < key)) pool) :
    Ends (standsBefore slot key) pool condition := by
  unfold standsBefore
  by_cases isTail : slot = tailSlot
  · rw [if_pos isTail]
    rw [decide_eq_false fun both => both.1 isTail] at goal
    exact Ends.pure goal
  · rw [if_neg isTail]
    refine Ends.bind (holds.bodyAt_ends member (Ends.pure ?_))
    have same : decide (slot ≠ tailSlot ∧ ground.key slot < key) =
        decide ((ground.start.bodyOf slot).key < key) := by
      simp [isTail, keyOf]
    exact same ▸ goal

theorem hasKey_ends (holds : ground.Holds temporary pool) {slot : Nat} {key : UInt64}
    {condition : Bool → Pool maxLevels Entry → Prop} (member : slot ∈ spine ground.line)
    (goal : condition (decide (slot ≠ tailSlot ∧ ground.key slot = key)) pool) :
    Ends (hasKey slot key) pool condition := by
  unfold hasKey
  by_cases isTail : slot = tailSlot
  · rw [if_pos isTail]
    rw [decide_eq_false fun both => both.1 isTail] at goal
    exact Ends.pure goal
  · rw [if_neg isTail]
    refine Ends.bind (holds.bodyAt_ends member (Ends.pure ?_))
    have same : decide (slot ≠ tailSlot ∧ ground.key slot = key) =
        ((ground.start.bodyOf slot).key == key) := by
      rw [Bool.eq_iff_iff]
      simp [isTail, keyOf]
    exact same ▸ goal

/-- What is live is linked at level 0. -/
theorem linked_of_alive (holds : ground.Holds temporary pool) (lanes : ground.Laned ground.start)
    (whole : ∀ slot ∈ ground.line, ground.validHeight slot = ground.height slot) {slot : Nat}
    (member : slot ∈ ground.line) (alive : ¬ ground.Dead slot) : pool.Linked 0 slot := by
  have there : ground.start.linkOf slot 0 ≠ Link.nil := by
    refine lanes.valid slot (List.mem_cons_of_mem _ member) 0 ?_
    have positive := ground.roster.heightPos slot member
    have same := whole slot member
    unfold validHeight height at same
    omega
  obtain ⟨next, leads, -⟩ := lanes.exists_next (List.mem_cons_of_mem _ member) there
    (lanes.unmarked (List.mem_cons_of_mem _ member) alive 0)
  exact holds.tidied.kept slot alive 0 (Pool.Linked.of_next? leads)

end Ground.Holds

end PriorityQueue

end PooledContainers
