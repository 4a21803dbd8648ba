/-
The nodes that were linked and not reclaimed since stand in a line: in ascending order of their
keys, and among equal keys the one that was linked last in front. What is linked at a level is a
part of this line, in the same order, so that "in front of" and "behind" mean the same at every
level. The rank of a slot is its distance from the head along the line. Nodes come into a line and
leave it, and that leaves the order of the others as it was.
-/

import Mathlib.Data.List.Nodup
import Mathlib.Data.List.TakeWhile
import PooledContainers.Proofs.Pool.View
import PooledContainers.Sentinel

namespace PooledContainers

namespace Line

/-! ### Ranks -/

/-- A line between the sentinels. -/
def spine (line : List Nat) : List Nat := headSlot :: (line ++ [tailSlot])

/-- The distance of a slot from the head. -/
def rank (line : List Nat) (slot : Nat) : Nat := (spine line).idxOf slot

theorem mem_spine {line : List Nat} {slot : Nat} :
    slot ∈ spine line ↔ slot = headSlot ∨ slot ∈ line ∨ slot = tailSlot := by
  simp [spine]

theorem mem_spine_of_mem {line : List Nat} {slot : Nat} (member : slot ∈ line) :
    slot ∈ spine line := mem_spine.mpr (Or.inr (Or.inl member))

theorem head_mem_spine (line : List Nat) : headSlot ∈ spine line := mem_spine.mpr (Or.inl rfl)

theorem tail_mem_spine (line : List Nat) : tailSlot ∈ spine line :=
  mem_spine.mpr (Or.inr (Or.inr rfl))

theorem mem_spine_of_isSentinel {line : List Nat} {slot : Nat} (sentinel : isSentinel slot = true) :
    slot ∈ spine line := by
  rcases isSentinel_iff.mp sentinel with rfl | rfl
  · exact head_mem_spine line
  · exact tail_mem_spine line

theorem mem_spine_of_mem_cons {line : List Nat} {slot : Nat} (member : slot ∈ headSlot :: line) :
    slot ∈ spine line := by
  rcases List.mem_cons.mp member with rfl | inLine
  · exact head_mem_spine line
  · exact mem_spine_of_mem inLine

/-- What stands in the spine and is not the tail stands in front of it. -/
theorem mem_cons_of_mem_spine {line : List Nat} {slot : Nat} (member : slot ∈ spine line)
    (inner : slot ≠ tailSlot) : slot ∈ headSlot :: line :=
  List.mem_cons.mpr ((mem_spine.mp member).imp_right fun rest => rest.resolve_right inner)

/-- What stands in the spine and is no sentinel stands in the line. -/
theorem mem_of_mem_spine {line : List Nat} {slot : Nat} (member : slot ∈ spine line)
    (inner : isSentinel slot = false) : slot ∈ line := by
  obtain ⟨notHead, notTail⟩ := isSentinel_eq_false_iff.mp inner
  exact List.mem_of_ne_of_mem notHead (mem_cons_of_mem_spine member notTail)

/-- The spine of an empty line has the sentinels only. -/
theorem mem_spine_nil {slot : Nat} : slot ∈ spine [] ↔ slot < sentinelCount := by
  rw [mem_spine]
  unfold headSlot tailSlot sentinelCount
  simp only [List.not_mem_nil, false_or]
  omega

theorem length_spine (line : List Nat) : (spine line).length = line.length + 2 := by
  simp [spine]

@[simp] theorem rank_head (line : List Nat) : rank line headSlot = 0 := List.idxOf_cons_self

theorem rank_injective {line : List Nat} {first second : Nat} (member : first ∈ spine line)
    (same : rank line first = rank line second) : first = second :=
  (List.idxOf_inj member).mp same

/-- What stands in the order of a line stands there once. -/
theorem nodup_of_ascending {line nodes : List Nat}
    (ascending : nodes.Pairwise fun front behind => rank line front < rank line behind) :
    nodes.Nodup :=
  ascending.imp fun before same => absurd (same ▸ before) (Nat.lt_irrefl _)

section Distinct

variable {line : List Nat} (distinct : (spine line).Nodup)

include distinct

theorem head_not_mem : headSlot ∉ line := by
  have head := (List.nodup_cons.mp distinct).1
  intro member
  exact head (List.mem_append_left _ member)

theorem tail_not_mem : tailSlot ∉ line := by
  have apart := (List.nodup_cons.mp distinct).2
  intro member
  exact List.disjoint_of_nodup_append apart member List.mem_cons_self

theorem isSentinel_eq_false_of_mem {slot : Nat} (member : slot ∈ line) :
    isSentinel slot = false := by
  refine isSentinel_eq_false_iff.mpr ⟨?_, ?_⟩
  · rintro rfl
    exact head_not_mem distinct member
  · rintro rfl
    exact tail_not_mem distinct member

theorem nodup_line : line.Nodup := (List.nodup_cons.mp distinct).2.of_append_left

theorem rank_pos {slot : Nat} (member : slot ∈ line) : 0 < rank line slot := by
  rw [Nat.pos_iff_ne_zero]
  intro zero
  have same : slot = headSlot :=
    rank_injective (mem_spine_of_mem member) (zero.trans (rank_head line).symm)
  exact head_not_mem distinct (same ▸ member)

theorem rank_le_length {slot : Nat} (member : slot ∈ headSlot :: line) :
    rank line slot ≤ line.length := by
  rcases List.mem_cons.mp member with rfl | inLine
  · rw [rank_head]
    exact Nat.zero_le _
  · have apart : headSlot ≠ slot := fun same => head_not_mem distinct (same ▸ inLine)
    unfold rank spine
    rw [List.idxOf_cons_ne _ apart, List.idxOf_append_of_mem inLine]
    exact List.idxOf_lt_length_of_mem inLine

theorem rank_tail : rank line tailSlot = line.length + 1 := by
  have apart : headSlot ≠ tailSlot := by decide
  unfold rank spine
  rw [List.idxOf_cons_ne _ apart, List.idxOf_append_of_notMem (tail_not_mem distinct),
    List.idxOf_cons_self]

theorem rank_lt_rank_tail {slot : Nat} (member : slot ∈ headSlot :: line) :
    rank line slot < rank line tailSlot := by
  rw [rank_tail distinct]
  exact Nat.lt_succ_of_le (rank_le_length distinct member)

/-- The spine is in the order of the ranks. -/
theorem rank_getElem {index : Nat} (inside : index < (spine line).length) :
    rank line (spine line)[index] = index := distinct.idxOf_getElem index inside

theorem pairwise_rank : line.Pairwise fun front behind => rank line front < rank line behind := by
  have ordered : (spine line).Pairwise fun front behind => rank line front < rank line behind := by
    refine List.pairwise_iff_getElem.mpr fun first second firstInside secondInside before => ?_
    rwa [rank_getElem distinct firstInside, rank_getElem distinct secondInside]
  exact (List.pairwise_append.mp (List.pairwise_cons.mp ordered).2).1

end Distinct

/-! ### Nodes that come and go -/

private theorem idxOf_lt_iff_of_sublist {short long : List Nat} (part : short.Sublist long)
    (distinct : long.Nodup) {first second : Nat} (firstMember : first ∈ short)
    (secondMember : second ∈ short) :
    short.idxOf first < short.idxOf second ↔ long.idxOf first < long.idxOf second := by
  induction part with
  | slnil => cases firstMember
  | @cons short long other part inductionHypothesis =>
    have otherNew := (List.nodup_cons.mp distinct).1
    have firstOther : other ≠ first := fun same => otherNew (same ▸ part.subset firstMember)
    have secondOther : other ≠ second := fun same => otherNew (same ▸ part.subset secondMember)
    rw [inductionHypothesis (List.nodup_cons.mp distinct).2 firstMember secondMember,
      List.idxOf_cons_ne _ firstOther, List.idxOf_cons_ne _ secondOther]
    exact Nat.succ_lt_succ_iff.symm
  | @cons_cons short long shared part inductionHypothesis =>
    by_cases firstShared : shared = first
    · by_cases secondShared : shared = second
      · rw [← firstShared, ← secondShared]
        simp
      · rw [List.idxOf_cons_eq _ firstShared, List.idxOf_cons_eq _ firstShared,
          List.idxOf_cons_ne _ secondShared, List.idxOf_cons_ne _ secondShared]
        simp
    · by_cases secondShared : shared = second
      · rw [List.idxOf_cons_eq _ secondShared, List.idxOf_cons_eq _ secondShared]
        simp
      · have firstRest := (List.mem_cons.mp firstMember).resolve_left (Ne.symm firstShared)
        have secondRest := (List.mem_cons.mp secondMember).resolve_left (Ne.symm secondShared)
        rw [List.idxOf_cons_ne _ firstShared, List.idxOf_cons_ne _ firstShared,
          List.idxOf_cons_ne _ secondShared, List.idxOf_cons_ne _ secondShared,
          Nat.succ_lt_succ_iff, Nat.succ_lt_succ_iff]
        exact inductionHypothesis (List.nodup_cons.mp distinct).2 firstRest secondRest

theorem spine_sublist {short long : List Nat} (part : short.Sublist long) :
    (spine short).Sublist (spine long) :=
  (part.append (List.Sublist.refl _)).cons_cons _

/-- A line without some nodes that have left it. -/
def without (line gone : List Nat) : List Nat := line.filter fun slot => decide (slot ∉ gone)

theorem mem_without {line gone : List Nat} {slot : Nat} :
    slot ∈ without line gone ↔ slot ∈ line ∧ slot ∉ gone := by
  simp [without]

theorem without_sublist (line gone : List Nat) : (without line gone).Sublist line :=
  List.filter_sublist

/-- A part of a line is ordered as the line is. -/
theorem rank_lt_rank_iff {short long : List Nat} (part : short.Sublist long)
    (distinct : (spine long).Nodup) {first second : Nat} (firstMember : first ∈ spine short)
    (secondMember : second ∈ spine short) :
    rank short first < rank short second ↔ rank long first < rank long second :=
  idxOf_lt_iff_of_sublist (spine_sublist part) distinct firstMember secondMember

theorem rank_le_rank_iff {short long : List Nat} (part : short.Sublist long)
    (distinct : (spine long).Nodup) {first second : Nat} (firstMember : first ∈ spine short)
    (secondMember : second ∈ spine short) :
    rank short first ≤ rank short second ↔ rank long first ≤ rank long second := by
  rw [← Nat.not_lt, ← Nat.not_lt, rank_lt_rank_iff part distinct secondMember firstMember]

/-- What stands in a front part of a line stands in front of what stands in the rest. -/
theorem rank_lt_rank_of_append {front back : List Nat} (distinct : (spine (front ++ back)).Nodup)
    {first second : Nat} (firstMember : first ∈ headSlot :: front)
    (secondMember : second ∈ back ++ [tailSlot]) :
    rank (front ++ back) first < rank (front ++ back) second := by
  have split : spine (front ++ back) = (headSlot :: front) ++ (back ++ [tailSlot]) := by
    simp [spine]
  have apart : second ∉ headSlot :: front := fun member =>
    List.disjoint_of_nodup_append (split ▸ distinct) member secondMember
  unfold rank
  rw [split, List.idxOf_append_of_mem firstMember, List.idxOf_append_of_notMem apart]
  exact Nat.lt_of_lt_of_le (List.idxOf_lt_length_of_mem firstMember) (Nat.le_add_right _ _)

/-- A line falls into what stands in front of a node and the rest. -/
theorem exists_split {line : List Nat} (distinct : (spine line).Nodup) {slot : Nat}
    (member : slot ∈ line) : ∃ front back, line = front ++ slot :: back ∧
      (∀ other ∈ front, rank line other < rank line slot) ∧
      ∀ other ∈ slot :: back, rank line slot ≤ rank line other := by
  obtain ⟨front, back, rfl⟩ := List.append_of_mem member
  refine ⟨front, back, rfl, fun other inFront => ?_, fun other inRest => ?_⟩
  · exact rank_lt_rank_of_append distinct (List.mem_cons_of_mem _ inFront) (by simp)
  · rcases List.mem_cons.mp inRest with rfl | inBack
    · exact Nat.le_refl _
    · have regrouped : front ++ slot :: back = (front ++ [slot]) ++ back := by simp
      rw [regrouped] at distinct ⊢
      exact Nat.le_of_lt (rank_lt_rank_of_append distinct (by simp)
        (List.mem_append_left _ inBack))

/-! ### A node that comes into a line -/

/-- A line with a node behind those that stand before its place. -/
def enter (line : List Nat) (isBefore : Nat → Bool) (node : Nat) : List Nat :=
  line.takeWhile isBefore ++ node :: line.dropWhile isBefore

section Enter

variable {line : List Nat} {isBefore : Nat → Bool} {node : Nat}

theorem perm_enter : (enter line isBefore node).Perm (node :: line) := by
  have whole := List.takeWhile_append_dropWhile (p := isBefore) (l := line)
  unfold enter
  refine List.perm_middle.trans ?_
  rw [whole]

theorem mem_enter {slot : Nat} : slot ∈ enter line isBefore node ↔ slot = node ∨ slot ∈ line := by
  rw [perm_enter.mem_iff, List.mem_cons]

theorem enter_sublist : line.Sublist (enter line isBefore node) := by
  have parts : (line.takeWhile isBefore ++ line.dropWhile isBefore).Sublist
      (enter line isBefore node) := (List.Sublist.refl _).append (List.sublist_cons_self _ _)
  rwa [List.takeWhile_append_dropWhile] at parts

theorem nodup_enter (distinct : (spine line).Nodup) (new : node ∉ spine line) :
    (spine (enter line isBefore node)).Nodup := by
  have permuted : (spine (enter line isBefore node)).Perm (node :: spine line) := by
    unfold spine
    refine ((perm_enter.append_right [tailSlot]).cons headSlot).trans ?_
    exact List.Perm.swap node headSlot (line ++ [tailSlot])
  exact permuted.nodup_iff.mpr (List.nodup_cons.mpr ⟨new, distinct⟩)

/-- The nodes that stand before the place of a node are those in front of it, if whatever stands in
front of one of them is one as well. -/
theorem rank_enter_lt_iff (distinct : (spine line).Nodup) (new : node ∉ spine line)
    (downward : ∀ front ∈ line, ∀ behind ∈ line, rank line front < rank line behind →
      isBefore behind = true → isBefore front = true) {slot : Nat} (member : slot ∈ line) :
    rank (enter line isBefore node) slot < rank (enter line isBefore node) node ↔
      isBefore slot = true := by
  have entered : (spine (enter line isBefore node)).Nodup := nodup_enter distinct new
  have whole := List.takeWhile_append_dropWhile (p := isBefore) (l := line)
  constructor
  · intro before
    by_contra late
    have behind : slot ∈ line.dropWhile isBefore := by
      rw [← whole] at member
      refine (List.mem_append.mp member).resolve_left fun early => late ?_
      exact List.mem_takeWhile_imp early
    have after : rank (enter line isBefore node) node < rank (enter line isBefore node) slot := by
      have split : enter line isBefore node =
          (line.takeWhile isBefore ++ [node]) ++ line.dropWhile isBefore := by
        simp [enter]
      rw [split] at entered ⊢
      exact rank_lt_rank_of_append entered (by simp) (List.mem_append_left _ behind)
    exact Nat.lt_asymm before after
  · intro early
    have front : slot ∈ line.takeWhile isBefore := by
      by_contra absent
      have behind : slot ∈ line.dropWhile isBefore := by
        rw [← whole] at member
        exact (List.mem_append.mp member).resolve_left absent
      -- The first node behind the place is not one of those before it, yet it is in front.
      cases rest : line.dropWhile isBefore with
      | nil =>
        rw [rest] at behind
        cases behind
      | cons first others =>
        have firstLate : isBefore first = false := by
          have head := List.head_dropWhile_not isBefore (l := line) (by rw [rest]; simp)
          simpa [rest] using head
        rw [rest] at behind whole
        rcases List.mem_cons.mp behind with rfl | inOthers
        · rw [early] at firstLate
          exact Bool.false_ne_true firstLate.symm
        · have firstMember : first ∈ line := by
            rw [← whole]
            simp
          have order : rank line first < rank line slot := by
            have split : line = (line.takeWhile isBefore ++ [first]) ++ others := by
              rw [List.append_assoc]
              exact whole.symm
            rw [split] at distinct ⊢
            exact rank_lt_rank_of_append distinct (by simp) (List.mem_append_left _ inOthers)
          rw [downward first firstMember slot member order early] at firstLate
          exact Bool.false_ne_true firstLate.symm
    unfold enter at entered ⊢
    exact rank_lt_rank_of_append entered (List.mem_cons_of_mem _ front) (by simp)

end Enter

/-- The nodes of a line are fewer than the slots among which they are. -/
theorem length_lt_of_forall_lt {line : List Nat} (distinct : (spine line).Nodup) {size : Nat}
    (inside : ∀ slot ∈ spine line, slot < size) : line.length + 2 ≤ size := by
  have bound := length_le_of_forall_lt distinct inside
  rwa [length_spine] at bound

end Line

end PooledContainers
