/-
The walk along a level. It goes from the head through the links of the level, marks and all, up to
the tail, and meets in the order of the line just what is linked there. What can be reached at all
stands in the line, and is linked at the level at which it is reached.
-/

import PooledContainers.Proofs.PriorityQueue.InOrder

namespace PooledContainers

namespace PriorityQueue

open Line Pool

/-- The walk along a level from a link meets some slots, one after another, and then the tail. -/
inductive Visits (pool : Pool maxLevels Entry) (level : Nat) : Link → List Nat → Prop
  | tail {link : Link} (names : link.slot? = some tailSlot) : Visits pool level link []
  | on {link : Link} {slot : Nat} {rest : List Nat} (names : link.slot? = some slot)
      (inner : slot ≠ tailSlot) (further : Visits pool level (pool.linkOf slot level) rest) :
    Visits pool level link (slot :: rest)

namespace Visits

variable {pool : Pool maxLevels Entry} {level : Nat} {link : Link} {slots : List Nat}

/-- A walk is determined by the link with which it starts. -/
theorem unique {others : List Nat} (visits : Visits pool level link slots)
    (again : Visits pool level link others) : slots = others := by
  induction visits generalizing others with
  | tail names =>
    cases again with
    | tail => rfl
    | on otherNames inner =>
      exact absurd (Option.some.inj (otherNames.symm.trans names)) inner
  | on names inner further inductionHypothesis =>
    cases again with
    | tail otherNames => exact absurd (Option.some.inj (names.symm.trans otherNames)) inner
    | on otherNames _ otherFurther =>
      have same := Option.some.inj (names.symm.trans otherNames)
      subst same
      rw [inductionHypothesis otherFurther]

/-- What a walk meets behind a slot that can be reached can be reached. -/
theorem met (visits : Visits pool level link slots) {front : Nat} (met : pool.Met level front)
    (starts : link = pool.linkOf front level) : ∀ slot ∈ slots, pool.Met level slot := by
  induction visits generalizing front with
  | tail => exact fun _ member => absurd member List.not_mem_nil
  | on names inner further inductionHypothesis =>
    have next := Met.behind met (starts ▸ names)
    intro slot member
    rcases List.mem_cons.mp member with rfl | inRest
    · exact next
    · exact inductionHypothesis next rfl slot inRest

/-- The nodes met on a level are shown. -/
theorem linkedFrom_eq (visits : Visits pool level link slots) (reached : level < maxLevels)
    (inside : ∀ slot ∈ slots, slot < pool.size) {steps : Nat} (enough : slots.length < steps) :
    linkedFrom pool level steps link = .ok (slots.map fun slot =>
      ⟨keyOf pool slot, (pool.bodyOf slot).datum.isDeleted,
        (pool.linkOf slot level).isMarked⟩) := by
  induction visits generalizing steps with
  | tail names =>
    obtain ⟨fewer, rfl⟩ := Nat.exists_eq_succ_of_ne_zero (Nat.ne_of_gt enough)
    unfold linkedFrom
    rw [names]
    rfl
  | @on link slot rest names inner further inductionHypothesis =>
    obtain ⟨fewer, rfl⟩ := Nat.exists_eq_succ_of_ne_zero (Nat.ne_of_gt (Nat.zero_lt_of_lt enough))
    have slotInside := inside slot List.mem_cons_self
    have shown := inductionHypothesis
      (fun other member => inside other (List.mem_cons_of_mem _ member))
      (show rest.length < fewer from Nat.lt_of_succ_lt_succ enough)
    unfold linkedFrom
    rw [names]
    show (if slot = tailSlot then _ else _) = _
    rw [if_neg inner, node?_eq_some slotInside, link?_eq_some slotInside reached]
    show (linkedFrom pool level fewer (pool.linkOf slot level)).map _ = _
    rw [shown]
    rfl

end Visits

section Threads

variable {line : List Nat} {pool : Pool maxLevels Entry} {level : Nat}

/-- Behind any slot that is linked at a level, the walk meets what is linked there and nothing else,
in the order of the line. -/
theorem exists_visits (distinct : (spine line).Nodup) (threaded : Threaded line pool level)
    (steps : Nat) {slot next : Nat} (member : slot ∈ headSlot :: line)
    (leads : pool.next? level slot = some next)
    (enough : line.length + 2 ≤ steps + rank line next) :
    ∃ slots, Visits pool level (pool.linkOf slot level) slots ∧
      (slots.Pairwise fun front behind => rank line front < rank line behind) ∧
      ∀ other, other ∈ slots ↔
        other ∈ line ∧ pool.Linked level other ∧ rank line slot < rank line other := by
  have adjacent := threaded.adjacent slot member next leads
  by_cases isTail : next = tailSlot
  · subst isTail
    refine ⟨[], Visits.tail leads, List.Pairwise.nil, fun other => ?_⟩
    refine iff_of_false (by simp) fun ⟨inLine, linked, behind⟩ => ?_
    exact absurd (rank_lt_rank_tail distinct (List.mem_cons_of_mem _ inLine))
      (Nat.not_lt_of_le (adjacent.between other inLine linked behind))
  · obtain ⟨nextMember, nextLinked⟩ := adjacent.ends.resolve_left isTail
    obtain ⟨target, nextLeads⟩ := nextLinked.exists_next?
    have nextBefore := adjacent.before
    cases steps with
    | zero =>
      have short := rank_le_length distinct (List.mem_cons_of_mem headSlot nextMember)
      omega
    | succ steps =>
      have further := (threaded.adjacent next (List.mem_cons_of_mem _ nextMember) target
        nextLeads).before
      obtain ⟨rest, visits, ascending, members⟩ := exists_visits distinct threaded steps
        (List.mem_cons_of_mem _ nextMember) nextLeads (by omega)
      refine ⟨next :: rest, Visits.on leads isTail visits, List.pairwise_cons.mpr
        ⟨fun other inRest => ((members other).mp inRest).2.2, ascending⟩, fun other => ?_⟩
      rw [List.mem_cons, members other]
      constructor
      · rintro (rfl | ⟨inLine, linked, behind⟩)
        · exact ⟨nextMember, nextLinked, nextBefore⟩
        · exact ⟨inLine, linked, Nat.lt_trans nextBefore behind⟩
      · rintro ⟨inLine, linked, behind⟩
        rcases Nat.eq_or_lt_of_le (adjacent.between other inLine linked behind) with same | past
        · exact Or.inl (rank_injective (mem_spine_of_mem nextMember) same).symm
        · exact Or.inr ⟨inLine, linked, past⟩

end Threads

namespace Consistent

variable {maxHeight : Nat} {line free fresh : List Nat} {pending : Nat → Bool} {held : Nat → Nat}
  {pool : Pool maxLevels Entry}

/-- A link of the spine that names a slot leads to a neighbour. -/
theorem adjacent_of_next? (consistent : Consistent maxHeight line free fresh pending held pool)
    {level slot next : Nat} (member : slot ∈ spine line)
    (names : pool.next? level slot = some next) : Adjacent line pool level slot next := by
  have there := (Linked.of_next? names).ne_nil
  have inner : slot ∈ headSlot :: line := mem_cons_of_mem_spine member fun isTail =>
    there (isTail ▸ consistent.lanes.tailNil level)
  have low : level < maxHeight :=
    Nat.lt_of_lt_of_le (consistent.lanes.top slot inner level there)
      (consistent.ground.height_le inner)
  exact (consistent.lanes.threaded level low).adjacent slot inner next names

theorem mem_spine_of_met (consistent : Consistent maxHeight line free fresh pending held pool)
    {level slot : Nat} (met : pool.Met level slot) : slot ∈ spine line := by
  induction met with
  | head => exact head_mem_spine line
  | behind _ names inductionHypothesis =>
    exact (consistent.adjacent_of_next? inductionHypothesis names).mem_spine

/-- A node that can be reached along a level is linked there. -/
theorem linked_of_met (consistent : Consistent maxHeight line free fresh pending held pool)
    {level slot : Nat} (met : pool.Met level slot) (member : slot ∈ line) :
    pool.Linked level slot := by
  cases met with
  | head => exact absurd member (head_not_mem consistent.roster.distinct)
  | behind before names =>
    have adjacent := consistent.adjacent_of_next? (consistent.mem_spine_of_met before) names
    refine (adjacent.ends.resolve_left ?_).2
    rintro rfl
    exact tail_not_mem consistent.roster.distinct member

/-- On each level the walk from the head meets just what is linked there, in the order of the
line. -/
theorem exists_level (consistent : Consistent maxHeight line free fresh pending held pool)
    {level : Nat} (low : level < maxHeight) :
    ∃ slots, Visits pool level (pool.linkOf headSlot level) slots ∧
      (slots.Pairwise fun front behind => rank line front < rank line behind) ∧
      ∀ slot, slot ∈ slots ↔ slot ∈ line ∧ pool.Linked level slot := by
  have distinct := consistent.roster.distinct
  have threaded := consistent.lanes.threaded level low
  obtain ⟨next, leads⟩ := threaded.head.exists_next?
  obtain ⟨slots, visits, ascending, members⟩ := exists_visits distinct threaded
    (line.length + 2) List.mem_cons_self leads (Nat.le_add_right _ _)
  refine ⟨slots, visits, ascending, fun slot => (members slot).trans ?_⟩
  refine and_congr_right fun member => and_iff_left ?_
  rw [rank_head]
  exact rank_pos distinct member

/-- A node is linked at the levels that it reaches, unless it was taken off. -/
theorem linked_iff (consistent : Consistent maxHeight line free fresh pending held pool)
    {slot : Nat} (member : slot ∈ line) (level : Nat) :
    pool.Linked level slot ↔
      level < (pool.bodyOf slot).height ∧ pool.linkOf slot level ≠ Link.cleared := by
  have inSpine := List.mem_cons_of_mem headSlot member
  constructor
  · intro linked
    exact ⟨consistent.lanes.top slot inSpine level linked.ne_nil,
      fun cleared => not_linked_of_cleared cleared linked⟩
  · rintro ⟨reached, notCleared⟩
    rw [← consistent.whole slot member] at reached
    by_contra unlinked
    have nowhere : (pool.linkOf slot level).slot? = none :=
      Option.not_isSome_iff_eq_none.mp unlinked
    rcases Link.eq_nil_or_eq_cleared nowhere with nil | cleared
    · exact consistent.lanes.valid slot inSpine level reached nil
    · exact notCleared cleared

/-- What is linked at a level can be reached along it. -/
theorem met_of_linked (consistent : Consistent maxHeight line free fresh pending held pool)
    {level slot : Nat} (member : slot ∈ headSlot :: line) (linked : pool.Linked level slot) :
    pool.Met level slot := by
  rcases List.mem_cons.mp member with rfl | inLine
  · exact Met.head
  · have low : level < maxHeight :=
      Nat.lt_of_lt_of_le (consistent.lanes.top slot member level linked.ne_nil)
        (consistent.ground.height_le member)
    obtain ⟨slots, visits, -, members⟩ := consistent.exists_level low
    exact visits.met Met.head rfl slot ((members slot).mpr ⟨inLine, linked⟩)

end Consistent

/-- Reading each level succeeds if reading every single one does. -/
private theorem mapM_ok {Item Shown : Type} (read : Item → Except Fault Shown)
    (items : List Item) (succeeds : ∀ item ∈ items, ∃ shown, read item = .ok shown) :
    ∃ all, items.mapM read = .ok all := by
  induction items with
  | nil => exact ⟨[], rfl⟩
  | cons item rest inductionHypothesis =>
    obtain ⟨shown, first⟩ := succeeds item List.mem_cons_self
    obtain ⟨all, others⟩ := inductionHypothesis fun other member =>
      succeeds other (List.mem_cons_of_mem _ member)
    refine ⟨shown :: all, ?_⟩
    rw [List.mapM_cons, first, others]
    rfl

namespace InOrder

variable {options : Options} {history : History} {session : Session PriorityQueue Handle}
  {line free : List Nat}

/-- The levels of a queue in order can be shown. -/
theorem linkedLevels_ok (inOrder : InOrder options history session line free) :
    ∃ all, linkedLevels session.subject = .ok all := by
  have consistent := inOrder.consistent
  unfold linkedLevels
  refine mapM_ok _ _ fun level member => ?_
  rw [List.mem_range, inOrder.maxHeight] at member
  have reached : level < maxLevels := Nat.lt_of_lt_of_le member consistent.roster.heights.2
  obtain ⟨slots, visits, ascending, members⟩ := consistent.exists_level member
  have inside : ∀ slot ∈ slots, slot < session.subject.pool.size := fun slot inSlots =>
    consistent.inside ((members slot).mp inSlots).1
  have short : slots.length < session.subject.pool.size + 1 :=
    Nat.lt_succ_of_le (length_le_of_forall_lt (nodup_of_ascending ascending) inside)
  have shown := visits.linkedFrom_eq reached inside short
  unfold linkedAt
  rw [link?_eq_some (consistent.roster.inside headSlot (head_mem_spine line)) reached]
  exact ⟨_, shown⟩

end InOrder

end PriorityQueue

end PooledContainers
