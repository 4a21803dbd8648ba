/-
A removal, stage by stage. A commit marks one data word; completing a removal takes the node off
every level and gives back the count of its link. The walk that removes the smallest entry passes
committed nodes only, so that the node which it commits is the first live one of the line.
-/

import PooledContainers.PriorityQueue.Operations
import PooledContainers.Proofs.PriorityQueue.Consistent

namespace PooledContainers

namespace PriorityQueue

open Line Operation Pool

/-! ### Committing a deletion -/

/-- The pool with the deletion of a node committed. -/
def committed (pool : Pool maxLevels Entry) (slot : Nat) : Pool maxLevels Entry :=
  pool.withBody slot { pool.bodyOf slot with datum := (pool.bodyOf slot).datum.delete }

section Committed

variable {pool : Pool maxLevels Entry} {slot : Nat}

theorem bodyOf_committed (inside : slot < pool.size) (other : Nat) :
    (committed pool slot).bodyOf other =
      if other = slot then { pool.bodyOf slot with datum := (pool.bodyOf slot).datum.delete }
      else pool.bodyOf other :=
  bodyOf_withBody inside other

theorem deleted_committed_iff (inside : slot < pool.size) (other : Nat) :
    Deleted (committed pool slot) other ↔ other = slot ∨ Deleted pool other := by
  unfold Deleted
  rw [bodyOf_committed inside]
  by_cases same : other = slot
  · rw [if_pos same]
    exact iff_of_true (Datum.isDeleted_delete _) (Or.inl same)
  · rw [if_neg same, or_iff_right same]

/-- A live node is committed. -/
theorem commit_ends {condition : Bool → Pool maxLevels Entry → Prop} (inside : slot < pool.size)
    (alive : ¬ Deleted pool slot) (holds : condition true (committed pool slot)) :
    Ends (commit slot) pool condition := by
  unfold commit
  refine Ends.bind (bodyAt_ends inside ?_)
  rw [if_neg (show ¬ (pool.bodyOf slot).datum.isDeleted = true from alive)]
  exact Ends.bind (replaceDatum_ends inside (Ends.pure holds))

/-- A node is committed once. -/
theorem commit_ends_of_deleted {condition : Bool → Pool maxLevels Entry → Prop}
    (inside : slot < pool.size) (dead : Deleted pool slot) (holds : condition false pool) :
    Ends (commit slot) pool condition := by
  unfold commit
  refine Ends.bind (bodyAt_ends inside ?_)
  rw [if_pos (show (pool.bodyOf slot).datum.isDeleted = true from dead)]
  exact Ends.pure holds

end Committed

variable {maxHeight : Nat} {line free fresh : List Nat} {pending : Nat → Bool} {held : Nat → Nat}
  {pool after : Pool maxLevels Entry}

theorem Consistent.committed {slot : Nat}
    (consistent : Consistent maxHeight line free fresh pending held pool) (member : slot ∈ line) :
    Consistent maxHeight line free fresh pending held (committed pool slot) :=
  consistent.withBody member _ rfl rfl rfl fun _ => Datum.isDeleted_delete _

/-! ### Committing the first live node -/

/-- The first live node was committed, and left the predecessor found as its reference back; or
there is no live node. -/
inductive FirstCommitted (maxHeight : Nat) (line free fresh : List Nat) (pending : Nat → Bool)
    (held : Nat → Nat) (pool : Pool maxLevels Entry) : Option Nat → Pool maxLevels Entry → Prop
  | none {after : Pool maxLevels Entry} (dead : ∀ slot ∈ line, Deleted pool slot)
      (consistent : Consistent maxHeight line free fresh pending held after)
      (size : after.size = pool.size) (body : ∀ slot, after.bodyOf slot = pool.bodyOf slot) :
      FirstCommitted maxHeight line free fresh pending held pool none after
  | some {first : Nat} {after : Pool maxLevels Entry} (member : first ∈ line)
      (alive : ¬ Deleted pool first)
      (least : ∀ slot ∈ line, ¬ Deleted pool slot → keyOf pool first ≤ keyOf pool slot)
      (consistent : Consistent maxHeight line free fresh pending (addCount held first) after)
      (size : after.size = pool.size)
      (body : ∀ slot, after.bodyOf slot = (PriorityQueue.committed pool first).bodyOf slot) :
      FirstCommitted maxHeight line free fresh pending held pool (some first) after

namespace Consistent

/-- Committing a live node behind a held predecessor to which it leaves the count. -/
theorem commitFound (consistent : Consistent maxHeight line free fresh pending held pool)
    {prev first : Nat} (holds : consistent.ground.Holds [prev, first] after)
    (prevMember : prev ∈ headSlot :: line) (member : first ∈ line) (alive : ¬ Deleted pool first)
    (before : rank line prev < rank line first) :
    Consistent maxHeight line free fresh pending (addCount held first)
      ((PriorityQueue.committed after first).withBack first (Link.ofSlot prev)) := by
  have walked := consistent.walked holds fun slot held => by
    rcases List.mem_cons.mp held with rfl | rest
    · exact mem_spine_of_mem_cons prevMember
    · exact List.mem_singleton.mp rest ▸ mem_spine_of_mem member
  have inside := walked.inside member
  have sameBody := holds.tidied.body
  have nowhere : after.back? first = Option.none :=
    (Pool.back?_congr (holds.tidied.back first)).trans
      (consistent.roster.backAlive first member alive)
  refine Consistent.withBack ((walked.committed member).congr (addCount_pair held prev first))
    member ((deleted_committed_iff inside first).mpr (Or.inl rfl)) ?_ ?_
  · unfold PriorityQueue.committed Pool.back?
    rw [backOf_withBody inside]
    exact nowhere
  · refine (List.mem_cons.mp prevMember).imp_right fun inLine => ⟨inLine, ?_⟩
    have key : ∀ slot, keyOf (PriorityQueue.committed after first) slot = keyOf pool slot := by
      intro slot
      unfold keyOf
      rw [bodyOf_committed inside]
      split
      next same => rw [same, sameBody]; rfl
      next => rw [sameBody]; rfl
    rw [key, key]
    exact (consistent.roster.sorted prev inLine first member before).resolve_right
      fun both => alive both.2

/-- The first live node is committed and keeps the predecessor as its reference back. -/
theorem commitFound_ends (consistent : Consistent maxHeight line free fresh pending held pool)
    {prev first : Nat} {middle : Pool maxLevels Entry}
    (holds : consistent.ground.Holds [prev, first] middle) (prevMember : prev ∈ headSlot :: line)
    (member : first ∈ line) (alive : ¬ Deleted pool first)
    (before : rank line prev < rank line first)
    (least : ∀ slot ∈ line, ¬ Deleted pool slot → rank line first ≤ rank line slot)
    (otherwise : Walk (Option Nat)) :
    Ends (commit first >>= fun committed =>
        if committed = true then
          linkTo prev >>= fun hint => setBack first hint >>= fun _ => pure (some first)
        else otherwise) middle
      (FirstCommitted maxHeight line free fresh pending held pool) := by
  have sameBody : ∀ slot, middle.bodyOf slot = pool.bodyOf slot := holds.tidied.body
  have inside := holds.inside (mem_spine_of_mem member)
  have stillAlive : ¬ Deleted middle first := fun dead =>
    alive ((deleted_congr (sameBody first)).mp dead)
  have committedInside : first < (PriorityQueue.committed middle first).size := by
    unfold PriorityQueue.committed
    rwa [size_withBody]
  have prevStays : prev < (PriorityQueue.committed middle first).size := by
    unfold PriorityQueue.committed
    rw [size_withBody]
    exact holds.inside (mem_spine_of_mem_cons prevMember)
  refine Ends.bind (commit_ends inside stillAlive ?_)
  rw [if_pos rfl]
  refine Ends.bind (linkTo_ends prevStays ?_)
  refine Ends.bind (setBack_ends committedInside (Ends.pure (FirstCommitted.some member alive
    (fun slot slotMember slotAlive => ?_) ?_ ?_ fun slot => ?_)))
  · exact consistent.ground.key_le_of_rank_le member slotMember (least slot slotMember slotAlive)
  · exact consistent.commitFound holds prevMember member alive before
  · unfold PriorityQueue.committed
    rw [size_withBack, size_withBody]
    exact holds.size
  · rw [bodyOf_withBack committedInside, bodyOf_committed inside,
      bodyOf_committed (consistent.inside member), sameBody, sameBody]

/-- A deleted node in front of the live ones is helped, and the walk goes on from what leads to the
node's successor then. -/
theorem passDeleted_ends (consistent : Consistent maxHeight line free fresh pending held pool)
    {prev first target : Nat} {middle : Pool maxLevels Entry}
    (holds : consistent.ground.Holds [prev, first] middle) (prevMember : prev ∈ headSlot :: line)
    (member : first ∈ line) (dead : Deleted pool first) (leads : middle.next? 0 first = some target)
    {found : Walk (Option Nat)} {further : Nat → Walk (Option Nat)}
    {condition : Option Nat → Pool maxLevels Entry → Prop}
    (goal : ∀ earlier after, consistent.ground.Holds [earlier] after →
      earlier ∈ headSlot :: line → after.next? 0 earlier = some target →
      rank line earlier < rank line first → Ends (further earlier) after condition) :
    Ends (commit first >>= fun committed =>
        if committed = true then found
        else (helpingFor maxHeight pool.size).help first 0 >>= fun earlier =>
          release prev >>= fun _ => further earlier) middle condition := by
  have short : rank line first < line.length + 2 := Nat.lt_succ_of_le (Nat.le_succ_of_le
    (rank_le_length consistent.roster.distinct (List.mem_cons_of_mem _ member)))
  have stillDead : Deleted middle first := (deleted_congr (holds.tidied.body first)).mpr dead
  refine Ends.bind (commit_ends_of_deleted (holds.inside (mem_spine_of_mem member)) stillDead ?_)
  rw [if_neg Bool.false_ne_true]
  refine Ends.andThen (consistent.sound.help first member short 0
    (consistent.roster.heightPos first member) _ _ holds.swap dead) fun earlier last helped => ?_
  refine Ends.bind (helped.holds.swap.release_ends (mem_spine_of_mem_cons prevMember)
    fun released => goal earlier _ released helped.member ?_ helped.before)
  rw [next?_recount]
  exact next?_of_linkOf (helped.handed target leads) (Link.slot_lt_of_slot? leads)

/-- The walk to the first live node from a predecessor in front of all live nodes. With every
committed node that it meets, the target of its link moves on. -/
theorem commitFirst_ends (consistent : Consistent maxHeight line free fresh pending held pool)
    (steps : Nat) {prev next : Nat} {start : Pool maxLevels Entry}
    (holds : consistent.ground.Holds [prev] start) (prevMember : prev ∈ headSlot :: line)
    (leads : start.next? 0 prev = some next) (enough : line.length + 2 ≤ steps + rank line next)
    (front : ∀ slot ∈ line, ¬ Deleted pool slot → rank line prev < rank line slot) :
    Ends (commitFirst (helpingFor maxHeight pool.size) steps prev) start
      (FirstCommitted maxHeight line free fresh pending held pool) := by
  induction steps generalizing prev next start with
  | zero =>
    have adjacent := holds.adjacent prevMember
      (Nat.lt_of_lt_of_le Nat.zero_lt_one consistent.roster.heights.1) leads
    have short := adjacent.rank_le_tail consistent.roster.distinct
    omega
  | succ steps inductionHypothesis =>
    have distinct := consistent.roster.distinct
    have low : 0 < maxHeight := consistent.roster.heights.1
    have within : ∀ slot ∈ headSlot :: line, rank line slot < line.length + 2 := fun slot member =>
      Nat.lt_succ_of_le (Nat.le_succ_of_le (rank_le_length distinct member))
    unfold commitFirst
    refine Ends.andThen (Helping.successor_ends consistent.sound holds prevMember
      (within prev prevMember) (Linked.of_next? leads).ne_nil) fun position middle followed => ?_
    obtain ⟨found, first⟩ := position
    have isNext : first = next := followed.arrives next leads
    have foundLe : rank line found ≤ rank line prev := followed.within
    have foundMember : found ∈ headSlot :: line := followed.member
    have adjacent : Adjacent line middle 0 found first := followed.adjacent
    have holdsBoth : consistent.ground.Holds [found, first] middle := followed.holds
    have firstSpine : first ∈ spine line := adjacent.mem_spine
    have behindFirst : ∀ slot ∈ line, ¬ Deleted pool slot → rank line first ≤ rank line slot := by
      intro slot member alive
      have linked := holdsBoth.linked_of_alive consistent.lanes consistent.whole member alive
      exact adjacent.between slot member linked (by have before := front slot member alive; omega)
    show Ends (if first = tailSlot then _ else _) _ _
    by_cases isTail : first = tailSlot
    · rw [if_pos isTail]
      refine Ends.bind (holdsBoth.swap.releaseBoth_ends firstSpine
        (mem_spine_of_mem_cons foundMember) fun _ done => ?_)
      refine Ends.pure (FirstCommitted.none (fun slot member => ?_) ?_ ?_ ?_)
      · by_contra alive
        have behind := behindFirst slot member alive
        rw [isTail] at behind
        exact Nat.not_lt_of_le behind (rank_lt_rank_tail distinct (List.mem_cons_of_mem _ member))
      · exact (consistent.walked done (by simp)).congr fun _ => rfl
      · exact done.size
      · exact done.tidied.body
    · rw [if_neg isTail]
      have member : first ∈ line := adjacent.mem_of_ne_tail isTail
      have firstInside := holdsBoth.inside firstSpine
      have points : (middle.linkOf found 0).slot? = some first := by
        rw [followed.leads]
        exact Link.slot?_ofSlot (size_lt_slotLimit firstInside)
      refine Ends.bind (holdsBoth.linkAt_ends foundMember (Linked.of_next? points).ne_nil ?_)
      rw [if_pos points]
      by_cases alive : ¬ Deleted pool first
      · exact consistent.commitFound_ends holdsBoth foundMember member alive adjacent.before
          behindFirst _
      · obtain ⟨target, firstLeads⟩ := (adjacent.ends.resolve_left isTail).2.exists_next?
        have further := (holdsBoth.adjacent (List.mem_cons_of_mem _ member) low firstLeads).before
        refine consistent.passDeleted_ends holdsBoth foundMember member (not_not.mp alive)
          firstLeads fun earlier last released earlierMember leads before =>
            inductionHypothesis released earlierMember leads ?_ ?_
        · subst isNext
          have step : rank line first < rank line target := further
          omega
        · intro slot slotMember slotAlive
          have behind := behindFirst slot slotMember slotAlive
          omega

/-- Removal of the smallest entry commits the first live node. -/
theorem commitMin_ends (consistent : Consistent maxHeight line free fresh pending held pool) :
    Ends (commitMin (helpingFor maxHeight pool.size)) pool
      (FirstCommitted maxHeight line free fresh pending held pool) := by
  have bound := consistent.sound.bound
  have low : 0 < maxHeight := consistent.roster.heights.1
  unfold commitMin
  refine Ends.bind (consistent.holds.retain_ends (head_mem_spine _) fun retained => ?_)
  obtain ⟨next, leads⟩ := (retained.lanes.threaded 0 low).head.exists_next?
  refine consistent.commitFirst_ends _ retained List.mem_cons_self leads ?_
    fun slot member _ => ?_
  · exact Nat.le_trans bound (Nat.le_add_right _ _)
  · rw [rank_head]
    exact rank_pos consistent.roster.distinct member

end Consistent

/-! ### Completing a removal -/

/-- Take a node off so many levels from a bottom level up, the highest first, each from where the
one above it ended. -/
def Helping.bypassAbove (helping : Helping) (node bottom : Nat) : Nat → Nat → Walk Nat
  | 0, prev => pure prev
  | count + 1, prev => do
    let prev ← helping.bypass node prev (bottom + count)
    helping.bypassAbove node bottom count prev

/-- Complete a removal down to a level: mark the node's links and take it off the levels from there
up. -/
def completeDownTo (helping : Helping) (node bottom : Nat) : Walk Nat := do
  let entry ← bodyAt node
  let _ ← markLinks node 0 entry.height
  retain headSlot
  helping.bypassAbove node bottom (entry.height - bottom) headSlot

/-- Complete a removal that got down to a level: take the node off the levels below, and give up the
counts. -/
def completeBelow (helping : Helping) (node bottom prev : Nat) : Walk Unit := do
  let prev ← helping.bypassLevels node bottom prev
  releaseAll [prev, node, node]

theorem Helping.bypassLevels_add (helping : Helping) (node bottom count prev : Nat) :
    helping.bypassLevels node (bottom + count) prev =
      helping.bypassAbove node bottom count prev >>= helping.bypassLevels node bottom := by
  induction count generalizing prev with
  | zero => rfl
  | succ count inductionHypothesis =>
    show helping.bypass node prev (bottom + count) >>=
      helping.bypassLevels node (bottom + count) = _
    unfold bypassAbove
    rw [funext inductionHypothesis, bind_assoc]

/-- A removal may be looked at when it has got down to any level of its node. -/
theorem completeRemoval_eq (helping : Helping) {node bottom : Nat} {pool : Pool maxLevels Entry}
    (inside : node < pool.size) (fits : bottom ≤ (pool.bodyOf node).height) :
    completeRemoval helping node pool =
      (completeDownTo helping node bottom >>= completeBelow helping node bottom) pool := by
  have read := bodyAt_eq inside
  have parts := helping.bypassLevels_add node bottom ((pool.bodyOf node).height - bottom) headSlot
  rw [Nat.add_sub_of_le fits] at parts
  unfold completeRemoval completeDownTo completeBelow
  rw [bind_assoc, bind_of_ok read, bind_of_ok read, parts]
  simp only [bind_assoc]

namespace Helping

variable {ground : Ground} {helping : Helping} {temporary : List Nat}

/-- A committed node is taken off its levels down to one. What it was taken off stays done. -/
theorem bypassAbove_ends {node : Nat} (member : node ∈ ground.line) (dead : ground.Dead node)
    (sound : helping.SoundBefore ground (ground.rank node)) (bottom count : Nat)
    (fits : bottom + count ≤ ground.height node) {prev : Nat} {start : Pool maxLevels Entry}
    (holds : ground.Holds (prev :: temporary) start) (prevMember : prev ∈ headSlot :: ground.line)
    (before : ground.rank prev < ground.rank node)
    (there : ∀ level < bottom + count, start.linkOf prev level ≠ Link.nil)
    (off : ∀ level < ground.height node, bottom + count ≤ level →
      start.linkOf node level = Link.cleared) :
    Ends (helping.bypassAbove node bottom count prev) start fun last after =>
      ground.Holds (last :: temporary) after ∧ last ∈ headSlot :: ground.line ∧
        ∀ level < ground.height node, bottom ≤ level →
          after.linkOf node level = Link.cleared := by
  induction count generalizing prev start with
  | zero => exact Ends.pure ⟨holds, prevMember, off⟩
  | succ count inductionHypothesis =>
    have level : bottom + count < bottom + (count + 1) := Nat.lt_succ_self _
    unfold bypassAbove
    refine Ends.andThen (bypass_ends member dead (Nat.lt_of_lt_of_le level fits) sound holds
      prevMember before (there _ level)) fun next after helped => ?_
    refine inductionHypothesis (Nat.le_of_lt (Nat.lt_of_lt_of_le level fits)) helped.holds
      helped.member helped.before (fun lower low => ?_) fun upper reached above => ?_
    · exact helped.holds.lanes.down next helped.member (bottom + count) lower (Nat.le_of_lt low)
        helped.there
    · rcases Nat.eq_or_lt_of_le above with rfl | higher
      · exact helped.off
      · exact helped.tidied.cleared (off upper reached higher)

end Helping

namespace Consistent

/-- When a removal has got down to a level, its node is off all levels from there up. -/
theorem completeDownTo_ends (consistent : Consistent maxHeight line free fresh pending held pool)
    {node bottom : Nat} (member : node ∈ line) (dead : Deleted pool node)
    (fits : bottom ≤ (pool.bodyOf node).height) :
    Ends (completeDownTo (helpingFor maxHeight pool.size) node bottom) pool fun prev after =>
      consistent.ground.Holds [prev] after ∧ prev ∈ headSlot :: line ∧
        ∀ level < (pool.bodyOf node).height, bottom ≤ level →
          after.linkOf node level = Link.cleared := by
  have inGround : node ∈ consistent.ground.line := member
  have positive : 0 < rank line node := rank_pos consistent.roster.distinct member
  have bounded : (helpingFor maxHeight pool.size).SoundBefore consistent.ground
      (consistent.ground.rank node) :=
    consistent.sound.weaken (Nat.le_add_right_of_le
      (rank_le_length consistent.roster.distinct (List.mem_cons_of_mem _ member)))
  have whole : bottom + ((pool.bodyOf node).height - bottom) = (pool.bodyOf node).height :=
    Nat.add_sub_of_le fits
  unfold completeDownTo
  refine Ends.bind (consistent.holds.bodyAt_ends (mem_spine_of_mem member) ?_)
  refine Ends.andThen (markLinks_ends inGround dead (pool.bodyOf node).height (Nat.le_refl 0)
    (Nat.le_of_eq (Nat.zero_add _)) consistent.holds) fun _ marked marks => ?_
  refine Ends.bind (marks.holds.retain_ends (head_mem_spine _) fun retained => ?_)
  refine Helping.bypassAbove_ends inGround dead bounded bottom _ (Nat.le_of_eq whole) retained
    List.mem_cons_self ?_ (fun level low => ?_) fun level reached above => ?_
  · rw [Ground.rank_head]
    exact positive
  · refine Helping.head_there retained (Nat.lt_of_lt_of_le ?_
      (consistent.roster.heightLe node member))
    exact Nat.lt_of_lt_of_le low (Nat.le_of_eq whole)
  · exact absurd reached (Nat.not_lt_of_le (Nat.le_trans (Nat.le_of_eq whole.symm) above))

/-- Completing a removal gives back the count of the node's link, and the one of the remover. -/
theorem completeRemoval_ends {node : Nat}
    (consistent : Consistent maxHeight line free fresh pending (addCount held node) pool)
    (isPending : pending node = true) (dead : Deleted pool node) :
    Ends (completeRemoval (helpingFor maxHeight pool.size) node) pool fun _ after => ∃ freed,
      Thinned maxHeight line free fresh (finish pending node) held freed pool after := by
  have member := consistent.pendingInside node isPending
  refine Ends.congr (completeRemoval_eq _ (consistent.inside member) (Nat.zero_le _)) ?_
  refine Ends.andThen (consistent.completeDownTo_ends member dead (Nat.zero_le _))
    fun prev last taken => ?_
  obtain ⟨taken, prevMember, off⟩ := taken
  unfold completeBelow Helping.bypassLevels
  refine Ends.bind (Ends.pure ?_)
  unfold releaseAll
  refine Ends.bind (taken.release_ends (mem_spine_of_mem_cons prevMember) fun released => ?_)
  have walked : Consistent maxHeight line free fresh pending (addCount held node) _ :=
    (consistent.walked released (by simp)).congr fun _ => rfl
  have settled := walked.finished isPending fun level linked => by
    have linkedBefore := (linked_recount _ _ _ _ _).mp linked
    have reached := taken.lanes.top node (List.mem_cons_of_mem _ member) level linkedBefore.ne_nil
    refine not_linked_of_cleared ?_ linkedBefore
    exact off level reached (Nat.zero_le level)
  have walkedBody := released.tidied.body
  have walkedSize := released.size
  unfold releaseAll
  refine Ends.andThen (settled.release_ends (settled.inside member)) fun _ middle thinned => ?_
  obtain ⟨early, first⟩ := thinned
  have stays : node < middle.size := by
    rw [first.size]
    exact settled.inside member
  unfold releaseAll
  refine Ends.andThen (first.consistent.release_ends stays) fun _ after thinned => ?_
  obtain ⟨late, second⟩ := thinned
  have both := first.trans second
  exact Ends.pure ⟨late ++ early, both.consistent, both.size.trans walkedSize,
    fun slot => (both.body slot).trans (walkedBody slot), both.finished⟩

end Consistent

end PriorityQueue

end PooledContainers
