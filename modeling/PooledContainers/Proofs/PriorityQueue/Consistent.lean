/-
What holds of the nodes of a queue whenever nobody walks on them. The roster and the lanes are in
order, the books of the pool balance, and every node is known: it stands in the line, it is fresh
from the free list, or it is free. Counts are held by handles, by the sentinels' places, and by the
links at level 0 of nodes whose removal is still pending. Walks keep all of this; giving up a count
takes out of the line the nodes that nobody holds any more.
-/

import PooledContainers.Proofs.Places
import PooledContainers.Proofs.PriorityQueue.Changes
import PooledContainers.Proofs.PriorityQueue.Helper

namespace PooledContainers

namespace PriorityQueue

open Line Operation Pool

/-! ### The invariant -/

/-- What holds of the nodes of a queue between walks. -/
structure Consistent (maxHeight : Nat) (line free fresh : List Nat) (pending : Nat → Bool)
    (held : Nat → Nat) (pool : Pool maxLevels Entry) : Prop where
  roster : Roster maxHeight line pool
  lanes : Lanes maxHeight line pool pool
  accounted : pool.Accounted free fun slot => held slot + placeCount pending slot
  occupied : ∀ slot ∈ spine line, slot ∉ free
  covered : ∀ slot < pool.size, slot ∈ spine line ∨ slot ∈ fresh ∨ slot ∈ free
  pendingInside : ∀ slot, pending slot = true → slot ∈ line
  /-- What is linked is pending. -/
  linkedPending : ∀ slot ∈ line, ∀ level, pool.Linked level slot → pending slot = true
  /-- Every level of a node is valid. -/
  whole : ∀ slot ∈ line, (pool.bodyOf slot).validHeight = (pool.bodyOf slot).height
  /-- Only nodes of the line have references back. -/
  bare : ∀ slot, slot ∉ line → pool.back? slot = none

namespace Consistent

variable {maxHeight : Nat} {line free fresh : List Nat} {pending : Nat → Bool} {held : Nat → Nat}
  {pool after : Pool maxLevels Entry}

/-! ### Walks -/

theorem outlasting (consistent : Consistent maxHeight line free fresh pending held pool) :
    ∀ slot ∈ spine line, 2 ≤ pool.counterOf slot := fun slot member =>
  consistent.accounted.two_le_counter (consistent.roster.inside slot member)
    (consistent.occupied slot member)

/-- The ground for walks. -/
def ground (consistent : Consistent maxHeight line free fresh pending held pool) : Ground :=
  ⟨maxHeight, line, pool, pool.counterOf, consistent.roster, consistent.outlasting⟩

theorem holds (consistent : Consistent maxHeight line free fresh pending held pool) :
    consistent.ground.Holds [] pool :=
  ⟨Tidied.refl _ _ _ _ _, consistent.lanes, fun _ _ => rfl⟩

/-- How the walks of the queue help. -/
theorem sound (consistent : Consistent maxHeight line free fresh pending held pool) :
    (helpingFor maxHeight pool.size).SoundBefore consistent.ground (line.length + 2) :=
  helpingFor_sound consistent.ground

/-- After a walk all is in order again, with the counts that the walk still holds. -/
theorem walked (consistent : Consistent maxHeight line free fresh pending held pool)
    {temporary : List Nat} (holds : consistent.ground.Holds temporary after)
    (members : ∀ slot ∈ temporary, slot ∈ spine line) :
    Consistent maxHeight line free fresh pending (fun slot => held slot + temporary.count slot)
      after := by
  have tidied : Tidied line (Deleted pool) 0 line.length pool after := holds.tidied
  have back? : ∀ slot, after.back? slot = pool.back? slot := fun slot =>
    Pool.back?_congr (tidied.back slot)
  refine ⟨?roster, ?lanes, ?accounted, consistent.occupied, ?covered, consistent.pendingInside,
    ?linkedPending, ?whole, ?bare⟩
  case roster =>
    exact consistent.roster.congr tidied.size (fun slot _ => tidied.body slot) tidied.back
  case lanes =>
    refine holds.lanes.congr (fun _ _ _ => rfl)
      (fun slot _ => (deleted_congr (tidied.body slot)).mpr) (fun slot _ => ?_) fun slot _ => ?_
    · rw [tidied.body]
      rfl
    · rw [tidied.body]
      rfl
  case accounted =>
    refine (consistent.accounted.of_frame (fun slot => temporary.count slot) tidied.size
      tidied.freeHead (fun slot member level => ?_) back? (fun slot member => ?_)
      fun slot inside => ?_).congr fun slot _ => ?_
    · refine tidied.outside slot (fun inLine => ?_) level
      exact consistent.occupied slot (mem_spine_of_mem_cons inLine) member
    · exact List.count_eq_zero.mpr fun inTemporary =>
        consistent.occupied slot (members slot inTemporary) member
    · exact holds.held slot (by rw [tidied.size]; exact inside)
    · exact Nat.add_right_comm _ _ _
  case covered =>
    rw [tidied.size]
    exact consistent.covered
  case linkedPending =>
    intro slot member level linked
    exact consistent.linkedPending slot member level (tidied.linked slot level linked)
  case whole =>
    simp only [tidied.body]
    exact consistent.whole
  case bare =>
    simp only [back?]
    exact consistent.bare

theorem congr {others : Nat → Nat}
    (consistent : Consistent maxHeight line free fresh pending held pool)
    (same : ∀ slot, others slot = held slot) :
    Consistent maxHeight line free fresh pending others pool :=
  { consistent with
    accounted := consistent.accounted.congr fun slot _ => congrArg (· + _) (same slot) }

/-- What stands outside the line and is held by nobody is free. -/
theorem mem_free (consistent : Consistent maxHeight line free fresh pending held pool) {slot : Nat}
    (inside : slot < pool.size) (outside : slot ∉ spine line) (unheld : held slot = 0) :
    slot ∈ free := by
  have notPending : pending slot = false := by
    refine Bool.eq_false_iff.mpr fun isPending => outside ?_
    exact mem_spine_of_mem (consistent.pendingInside slot isPending)
  have notSentinel : isSentinel slot = false :=
    Bool.eq_false_iff.mpr fun sentinel => outside (mem_spine_of_isSentinel sentinel)
  have unnamed : pool.backCount slot = 0 := by
    unfold backCount
    rw [List.countP_eq_zero]
    intro other _ names
    rw [decide_eq_true_eq] at names
    by_cases inLine : other ∈ line
    · rcases consistent.roster.back other inLine slot names with rfl | ⟨member, -⟩
      · exact outside (head_mem_spine line)
      · exact outside (mem_spine_of_mem member)
    · rw [consistent.bare other inLine] at names
      exact absurd names (by simp)
  rw [consistent.accounted.free_iff slot inside, unheld, unnamed]
  unfold placeCount
  rw [notPending, notSentinel]
  rfl

/-! ### Nodes outside the line -/

/-- A change outside the line, which may take nodes off the free list. -/
theorem of_frame {lessFree moreFresh : List Nat} {others : Nat → Nat}
    (consistent : Consistent maxHeight line free fresh pending held pool)
    (size : after.size = pool.size)
    (body : ∀ slot ∈ spine line, after.bodyOf slot = pool.bodyOf slot)
    (links : ∀ slot ∈ spine line, ∀ level, after.linkOf slot level = pool.linkOf slot level)
    (back : ∀ slot, after.backOf slot = pool.backOf slot)
    (accounted : after.Accounted lessFree fun slot => others slot + placeCount pending slot)
    (fewer : ∀ slot ∈ lessFree, slot ∈ free)
    (known : ∀ slot, slot ∈ fresh ∨ slot ∈ free → slot ∈ moreFresh ∨ slot ∈ lessFree) :
    Consistent maxHeight line lessFree moreFresh pending others after := by
  have within : ∀ slot ∈ headSlot :: line, slot ∈ spine line :=
    fun slot member => mem_spine_of_mem_cons member
  refine ⟨consistent.roster.congr size body back, ?lanes, accounted, ?occupied, ?covered,
    consistent.pendingInside, ?linkedPending, ?whole, ?bare⟩
  case lanes =>
    exact consistent.lanes.congr links
      (fun slot member => (deleted_congr (body slot (mem_spine_of_mem member))).mpr)
      (fun slot member => by rw [body slot (within slot member)])
      fun slot member => by rw [body slot (within slot member)]
  case occupied =>
    intro slot member inFree
    exact consistent.occupied slot member (fewer slot inFree)
  case covered =>
    intro slot inside
    rw [size] at inside
    exact (consistent.covered slot inside).imp_right (known slot)
  case linkedPending =>
    intro slot member level linked
    exact consistent.linkedPending slot member level
      (linked.congr (Pool.next?_congr (links slot (mem_spine_of_mem member) level)).symm)
  case whole =>
    intro slot member
    rw [body slot (mem_spine_of_mem member)]
    exact consistent.whole slot member
  case bare =>
    intro slot absent
    rw [Pool.back?_congr (back slot)]
    exact consistent.bare slot absent

/-- The first free node becomes a fresh one. -/
theorem allocated {slot : Nat} {rest : List Nat}
    (consistent : Consistent maxHeight line (slot :: rest) fresh pending held pool)
    (allocated : Pool.Allocated rest (fun other => held other + placeCount pending other) slot pool
      after) :
    Consistent maxHeight line rest (slot :: fresh) pending (addCount held slot) after := by
  refine consistent.of_frame allocated.size (fun other _ => allocated.body other)
    (fun other member level => ?_) allocated.back
    (allocated.accounted.congr fun other _ => Nat.add_right_comm _ _ _)
    (fun other member => List.mem_cons_of_mem _ member) fun other known => ?_
  · rw [allocated.links, if_neg]
    rintro rfl
    exact consistent.occupied other member List.mem_cons_self
  · rcases known with isFresh | isFree
    · exact Or.inl (List.mem_cons_of_mem _ isFresh)
    · exact (List.mem_cons.mp isFree).imp_left fun same : other = slot =>
        same ▸ List.mem_cons_self

/-- The body of a node outside the line does not matter. -/
theorem withFreshBody (consistent : Consistent maxHeight line free fresh pending held pool)
    {slot : Nat} (inside : slot < pool.size) (new : slot ∉ spine line) (body : Entry) :
    Consistent maxHeight line free fresh pending held (pool.withBody slot body) := by
  have links : ∀ other level, (pool.withBody slot body).linkOf other level =
      pool.linkOf other level := linkOf_withBody inside
  have back : ∀ other, (pool.withBody slot body).backOf other = pool.backOf other :=
    backOf_withBody inside
  refine consistent.of_frame (size_withBody slot body) (fun other member => ?_)
    (fun other _ => links other) back ((consistent.accounted.of_frame (fun _ => 0)
      (size_withBody slot body) rfl (fun other _ => links other) (fun other => ?_) (fun _ _ => rfl)
      fun other _ => counterOf_withBody inside other).congr fun _ _ => rfl)
    (fun _ member => member) fun _ known => known
  · rw [bodyOf_withBody inside, if_neg]
    rintro rfl
    exact new member
  · exact Pool.back?_congr (back other)

/-- A count may be taken on any node that is not free. -/
theorem retained (consistent : Consistent maxHeight line free fresh pending held pool)
    {slot : Nat} (inside : slot < pool.size) (occupied : slot ∉ free) :
    Consistent maxHeight line free fresh pending (addCount held slot) (pool.retained slot) := by
  refine consistent.of_frame (size_recount slot _) (fun other _ => bodyOf_recount slot _ other)
    (fun other _ => linkOf_recount slot _ other) (backOf_recount slot _)
    ((consistent.accounted.of_frame (fun other => if other = slot then 1 else 0)
      (size_recount slot _) rfl (fun other _ => linkOf_recount slot _ other) (fun other => ?_)
      (fun other member => if_neg fun same : other = slot => occupied (same ▸ member))
      fun other _ => ?_).congr
        fun other _ => Nat.add_right_comm _ _ _)
    (fun _ member => member) fun _ known => known
  · exact back?_recount slot _ other
  · rw [counterOf_recount _ _ inside]
    split
    next same => rw [same]
    next => rfl

/-- Fresh nodes that became free again are free. -/
theorem settled (consistent : Consistent maxHeight line free fresh pending held pool)
    (returned : ∀ slot ∈ fresh, slot ∈ free) :
    Consistent maxHeight line free [] pending held pool :=
  consistent.of_frame rfl (fun _ _ => rfl) (fun _ _ _ => rfl) (fun _ => rfl) consistent.accounted
    (fun _ member => member) fun slot known =>
      Or.inr (known.elim (returned slot) fun isFree => isFree)

/-! ### Changes of single nodes -/

theorem inside (consistent : Consistent maxHeight line free fresh pending held pool) {slot : Nat}
    (member : slot ∈ line) : slot < pool.size :=
  consistent.roster.inside slot (mem_spine_of_mem member)

/-- A body may get another payload, and a live node's deletion may be committed. -/
theorem withBody (consistent : Consistent maxHeight line free fresh pending held pool) {slot : Nat}
    (member : slot ∈ line) (body : Entry) (sameKey : body.key = (pool.bodyOf slot).key)
    (sameHeight : body.height = (pool.bodyOf slot).height)
    (sameValid : body.validHeight = (pool.bodyOf slot).validHeight)
    (sameDeleted : Deleted pool slot → body.datum.isDeleted = true) :
    Consistent maxHeight line free fresh pending held (pool.withBody slot body) := by
  have inside := consistent.inside member
  have size : (pool.withBody slot body).size = pool.size := size_withBody slot body
  have bodyOf : ∀ other, (pool.withBody slot body).bodyOf other =
      if other = slot then body else pool.bodyOf other := bodyOf_withBody inside
  have links : ∀ other level, (pool.withBody slot body).linkOf other level =
      pool.linkOf other level := linkOf_withBody inside
  have back : ∀ other, (pool.withBody slot body).backOf other = pool.backOf other :=
    backOf_withBody inside
  have back? : ∀ other, (pool.withBody slot body).back? other = pool.back? other := fun other =>
    Pool.back?_congr (back other)
  have whole : body.validHeight = body.height := by
    rw [sameValid, sameHeight]
    exact consistent.whole slot member
  have lanes := consistent.lanes.withBody inside sameHeight sameDeleted fun level low =>
    consistent.lanes.valid slot (List.mem_cons_of_mem _ member) level (sameValid ▸ low)
  refine ⟨consistent.roster.withBody member sameKey sameHeight sameDeleted (Nat.le_of_eq whole)
    fun _ => whole, lanes, ?accounted, consistent.occupied, ?covered, consistent.pendingInside,
    ?linkedPending, ?whole, ?bare⟩
  case accounted =>
    exact (consistent.accounted.of_frame (fun _ => 0) size rfl
      (fun other _ => links other) back? (fun _ _ => rfl)
      fun other _ => counterOf_withBody inside other).congr fun other _ => rfl
  case covered =>
    rw [size]
    exact consistent.covered
  case linkedPending =>
    intro other otherMember level linked
    exact consistent.linkedPending other otherMember level
      (linked.congr (Pool.next?_congr (links other level)).symm)
  case whole =>
    intro other otherMember
    rw [bodyOf]
    split
    next => exact whole
    next => exact consistent.whole other otherMember
  case bare =>
    simp only [back?]
    exact consistent.bare

/-- A count on the head or on a node with a smaller key may be left to a committed node, as its
reference back. -/
theorem withBack {slot target : Nat}
    (consistent : Consistent maxHeight line free fresh pending (addCount held target) pool)
    (member : slot ∈ line) (dead : Deleted pool slot) (nowhere : pool.back? slot = none)
    (smaller : target = headSlot ∨ target ∈ line ∧ keyOf pool target < keyOf pool slot) :
    Consistent maxHeight line free fresh pending held
      (pool.withBack slot (Link.ofSlot target)) := by
  have inside := consistent.inside member
  have targetInside : target < pool.size := by
    refine consistent.roster.inside target ?_
    rcases smaller with rfl | ⟨inLine, -⟩
    · exact head_mem_spine line
    · exact mem_spine_of_mem inLine
  have body : ∀ other, (pool.withBack slot (Link.ofSlot target)).bodyOf other =
      pool.bodyOf other := bodyOf_withBack inside
  have links : ∀ other level, (pool.withBack slot (Link.ofSlot target)).linkOf other level =
      pool.linkOf other level := linkOf_withBack inside
  have there := consistent.roster.backThere slot inside
  have lanes := consistent.lanes.congr (fun other _ => links other)
    (fun other _ => (deleted_congr (body other)).mpr) (fun other _ => by rw [body])
    fun other _ => by rw [body]
  refine ⟨consistent.roster.withBack member dead smaller, lanes, ?accounted, consistent.occupied,
    ?covered, consistent.pendingInside, ?linkedPending, ?whole, ?bare⟩
  case accounted =>
    have counted : pool.Accounted free
        (addCount (fun other => held other + placeCount pending other) target) :=
      consistent.accounted.congr fun other _ => addCount_add _ _ _ other
    exact counted.withBack inside targetInside
      (consistent.occupied slot (mem_spine_of_mem member)) there nowhere
  case covered =>
    rw [size_withBack]
    exact consistent.covered
  case linkedPending =>
    intro other otherMember level linked
    exact consistent.linkedPending other otherMember level
      (linked.congr (Pool.next?_congr (links other level)).symm)
  case whole =>
    simp only [body]
    exact consistent.whole
  case bare =>
    intro other absent
    rw [back?_withBack inside targetInside there,
      if_neg fun same : other = slot => absent (same ▸ member)]
    exact consistent.bare other absent

/-- The count of the link to a node that is linked nowhere may be given back. -/
theorem finished (consistent : Consistent maxHeight line free fresh pending held pool) {slot : Nat}
    (isPending : pending slot = true) (unlinked : ∀ level, ¬ pool.Linked level slot) :
    Consistent maxHeight line free fresh (finish pending slot) (addCount held slot) pool := by
  refine { consistent with
    accounted := consistent.accounted.congr fun other _ => placeCount_finish isPending held other
    pendingInside := fun other still => ?pendingInside
    linkedPending := fun other member level linked => ?linkedPending }
  case pendingInside =>
    unfold finish at still
    rw [Bool.and_eq_true] at still
    exact consistent.pendingInside other still.1
  case linkedPending =>
    unfold finish
    rw [consistent.linkedPending other member level linked, Bool.true_and, decide_eq_true_eq]
    rintro rfl
    exact unlinked level linked

/-! ### Giving up a count -/

/-- A count was given up, and the nodes that nobody holds any more left the line. -/
structure Thinned (maxHeight : Nat) (line free fresh : List Nat) (pending : Nat → Bool)
    (held : Nat → Nat) (freed : List Nat) (pool after : Pool maxLevels Entry) : Prop where
  consistent : Consistent maxHeight (without line freed) (freed ++ free) fresh pending held after
  size : after.size = pool.size
  body : ∀ slot, after.bodyOf slot = pool.bodyOf slot
  finished : ∀ slot ∈ freed, pending slot = false

/-- Giving up a count may free nodes, which leave the line; the others stay as they are. -/
theorem release_ends {slot : Nat}
    (consistent : Consistent maxHeight line free fresh pending (addCount held slot) pool)
    (inside : slot < pool.size) :
    Ends (Pool.release slot) pool fun _ after => ∃ freed,
      Thinned maxHeight line free fresh pending held freed pool after := by
  have counted : pool.Accounted free
      (addCount (fun other => held other + placeCount pending other) slot) :=
    consistent.accounted.congr fun other _ => addCount_add _ _ _ other
  refine (Pool.release_ends (by decide) counted inside).imp fun _ after released => ?_
  obtain ⟨freed, released⟩ := released
  have gone : ∀ other ∈ freed, isSentinel other = false ∧ pending other = false :=
    fun _ member => released.without_place member
  have headStays : headSlot ∉ freed := fun member =>
    absurd (gone headSlot member).1 (by decide)
  have tailStays : tailSlot ∉ freed := fun member =>
    absurd (gone tailSlot member).1 (by decide)
  have part := without_sublist line freed
  refine ⟨freed, ⟨consistent.roster.released released, ?lanes, released.accounted, ?occupied,
    ?covered, ?pendingInside, ?linkedPending, ?whole, ?bare⟩, released.size, released.body,
    fun other member => (gone other member).2⟩
  case lanes =>
    refine consistent.lanes.released consistent.roster.distinct released headStays tailStays
      fun other member inFreed level linked => ?_
    have notPending := (gone other inFreed).2
    rw [consistent.linkedPending other member level linked] at notPending
    exact Bool.false_ne_true notPending.symm
  case occupied =>
    intro other member inFree
    rcases List.mem_append.mp inFree with inFreed | wasFree
    · rcases mem_spine.mp member with rfl | inLine | rfl
      · exact headStays inFreed
      · exact (mem_without.mp inLine).2 inFreed
      · exact tailStays inFreed
    · exact consistent.occupied other ((spine_sublist part).subset member) wasFree
  case covered =>
    intro other otherInside
    rw [released.size] at otherInside
    rcases consistent.covered other otherInside with inSpine | isFresh | wasFree
    · by_cases inFreed : other ∈ freed
      · exact Or.inr (Or.inr (List.mem_append_left _ inFreed))
      · left
        rcases mem_spine.mp inSpine with rfl | inLine | rfl
        · exact head_mem_spine _
        · exact mem_spine_of_mem (mem_without.mpr ⟨inLine, inFreed⟩)
        · exact tail_mem_spine _
    · exact Or.inr (Or.inl isFresh)
    · exact Or.inr (Or.inr (List.mem_append_right _ wasFree))
  case pendingInside =>
    intro other isPending
    refine mem_without.mpr ⟨consistent.pendingInside other isPending, fun inFreed => ?_⟩
    rw [(gone other inFreed).2] at isPending
    exact Bool.false_ne_true isPending
  case linkedPending =>
    intro other member level linked
    obtain ⟨inLine, kept⟩ := mem_without.mp member
    exact consistent.linkedPending other inLine level
      (linked.congr (released.next?_of_not_mem kept level).symm)
  case whole =>
    intro other member
    rw [released.body]
    exact consistent.whole other (part.subset member)
  case bare =>
    intro other absent
    by_cases inFreed : other ∈ freed
    · exact released.accounted.bare other (List.mem_append_left _ inFreed)
    · rw [released.back?_of_not_mem inFreed]
      exact consistent.bare other fun member => absent (mem_without.mpr ⟨member, inFreed⟩)

/-- Nodes may leave the line one after another. -/
theorem Thinned.trans {early late : List Nat} {heldBetween : Nat → Nat}
    {middle : Pool maxLevels Entry}
    (first : Thinned maxHeight line free fresh pending heldBetween early pool middle)
    (second : Thinned maxHeight (without line early) (early ++ free) fresh pending held late middle
      after) :
    Thinned maxHeight line free fresh pending held (late ++ early) pool after := by
  have lines : without (without line early) late = without line (late ++ early) := by
    unfold without
    rw [List.filter_filter]
    refine List.filter_congr fun slot _ => ?_
    simp
  refine ⟨?_, second.size.trans first.size, fun slot => (second.body slot).trans (first.body slot),
    fun slot member => ?_⟩
  · rw [← lines, List.append_assoc]
    exact second.consistent
  · rcases List.mem_append.mp member with inLate | inEarly
    · exact second.finished slot inLate
    · exact first.finished slot inEarly

/-- Giving up a count on each of some nodes. -/
theorem releaseAll_ends (slots : List Nat) {line free : List Nat} {pool : Pool maxLevels Entry}
    (consistent : Consistent maxHeight line free fresh pending
      (fun slot => held slot + slots.count slot) pool)
    (inside : ∀ slot ∈ slots, slot < pool.size) :
    Ends (releaseAll slots) pool fun _ after => ∃ freed,
      Thinned maxHeight line free fresh pending held freed pool after := by
  induction slots generalizing line free pool with
  | nil =>
    have whole : without line [] = line := by simp [without]
    refine Ends.pure ⟨[], ?_, rfl, fun _ => rfl, fun _ member => absurd member (by simp)⟩
    rw [whole, List.nil_append]
    exact consistent.congr fun _ => rfl
  | cons slot rest inductionHypothesis =>
    have counted : Consistent maxHeight line free fresh pending
        (addCount (fun other => held other + rest.count other) slot) pool :=
      consistent.congr fun other => addCount_count held slot rest other
    unfold releaseAll
    refine Ends.andThen (counted.release_ends (inside slot List.mem_cons_self))
      fun _ middle thinned => ?_
    obtain ⟨early, first⟩ := thinned
    refine (inductionHypothesis first.consistent fun other member => ?_).imp
      fun _ after thinned => ?_
    · rw [first.size]
      exact inside other (List.mem_cons_of_mem _ member)
    · obtain ⟨late, second⟩ := thinned
      exact ⟨late ++ early, first.trans second⟩

end Consistent

end PriorityQueue

end PooledContainers
