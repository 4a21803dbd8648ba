/-
Walks along a level, as far as the helper they call is sound for the nodes they may meet. A walk
that follows a link which leads somewhere always arrives there, whatever it has to tidy on the way:
helping a node hands its own link over to the predecessor found. So a walk goes on along the line
with every step, and its predecessor never moves away from the head.
-/

import PooledContainers.Proofs.PriorityQueue.Hints

namespace PooledContainers

namespace PriorityQueue

open Line Operation

variable {ground : Ground} {helping : Helping} {limit : Nat} {temporary : List Nat}
  {pool : Pool maxLevels Entry}

/-! ### What a helper promises -/

/-- A node was helped at a level: it is off the level, and its link was handed over to the
predecessor that is now held in its place. -/
structure Ground.Helped (ground : Ground) (temporary : List Nat) (node level : Nat)
    (pool : Pool maxLevels Entry) (prev : Nat) (after : Pool maxLevels Entry) : Prop where
  holds : ground.Holds (prev :: temporary) after
  tidied : ground.Tidies level (ground.rank node) pool after
  member : prev ∈ headSlot :: ground.line
  before : ground.rank prev < ground.rank node
  there : after.linkOf prev level ≠ Link.nil
  off : after.linkOf node level = Link.cleared
  handed : ∀ next, pool.next? level node = some next →
    after.linkOf prev level = Link.ofSlot next

/-- What more a helper promises: nothing gets out of date on the way, and the predecessor is deleted
only if a reference back says so that is out of date. One of the node's own is followed all the
same. -/
structure Ground.Finished (ground : Ground) (temporary : List Nat) (node level : Nat)
    (pool : Pool maxLevels Entry) (prev : Nat) (after : Pool maxLevels Entry) : Prop
    extends ground.Helped temporary node level pool prev after where
  heeded : Heeded pool after
  vouched : ground.Vouched level prev after
  astray : ∀ hint, StaleHint pool level node hint →
    prev = hint ∧ (after.linkOf prev level).isMarked = false

/-- A helper may give up a count after it has finished. -/
theorem Ground.Finished.released {node level prev slot : Nat} {held : List Nat}
    {after : Pool maxLevels Entry} (finished : ground.Finished held node level pool prev after)
    (released : ground.Holds (prev :: temporary) (after.surrendered slot)) :
    ground.Finished temporary node level pool prev (after.surrendered slot) where
  holds := released
  tidied := finished.tidied.recount _ _
  member := finished.member
  before := finished.before
  there := by
    rw [Pool.linkOf_recount]
    exact finished.there
  off := by
    rw [Pool.linkOf_recount]
    exact finished.off
  handed next leads := by
    rw [Pool.linkOf_recount]
    exact finished.handed next leads
  heeded := finished.heeded.recount _ _
  vouched := finished.vouched.recount _ _
  astray hint stale := by
    rw [Pool.linkOf_recount]
    exact finished.astray hint stale

/-- A helper may set out with one more count. -/
theorem Ground.Finished.of_retained {node level prev slot : Nat} {after : Pool maxLevels Entry}
    (finished : ground.Finished temporary node level (pool.retained slot) prev after) :
    ground.Finished temporary node level pool prev after :=
  { finished with
    tidied := (Tidied.of_recount _ _ _ _ _ _ _).trans finished.tidied
    handed := fun next leads => finished.handed next (by rw [Pool.next?_recount]; exact leads)
    heeded := (Heeded.of_recount _ _ _).trans finished.heeded
    astray := fun hint stale => finished.astray hint (stale.recount _ _) }

/-- A helper is sound in front of a rank. -/
structure Helping.SoundBefore (helping : Helping) (ground : Ground) (limit : Nat) : Prop where
  bound : ground.line.length + 2 ≤ helping.bound
  help : ∀ node ∈ ground.line, ground.rank node < limit → ∀ level < ground.height node,
    ∀ temporary pool, ground.Holds (node :: temporary) pool → ground.Dead node →
      Ends (helping.help node level) pool (ground.Finished temporary node level pool)

theorem Helping.SoundBefore.weaken {nearer : Nat} (sound : helping.SoundBefore ground limit)
    (le : nearer ≤ limit) : helping.SoundBefore ground nearer :=
  ⟨sound.bound, fun node member near =>
    sound.help node member (Nat.lt_of_lt_of_le near le)⟩

/-! ### Positions that walks arrive at -/

/-- A walk arrived at a position on a level: a predecessor and the slot to which its link leads,
both of them held. -/
structure Ground.Arrived (ground : Ground) (temporary : List Nat) (level bound : Nat)
    (pool : Pool maxLevels Entry) (position : Nat × Nat) (after : Pool maxLevels Entry) :
    Prop where
  holds : ground.Holds (position.1 :: position.2 :: temporary) after
  tidied : ground.Tidies level bound pool after
  member : position.1 ∈ headSlot :: ground.line
  leads : after.linkOf position.1 level = Link.ofSlot position.2
  adjacent : Adjacent ground.line after level position.1 position.2
  heeded : Heeded pool after
  vouched : ground.Vouched level position.1 after

/-- Where a walk arrives that goes on from where another one ended. -/
theorem Ground.Arrived.of_earlier {level bound nearer : Nat} {middle after : Pool maxLevels Entry}
    {position : Nat × Nat} (arrived : ground.Arrived temporary level nearer middle position after)
    (tidied : ground.Tidies level bound pool middle) (heeded : Heeded pool middle)
    (near : nearer ≤ bound) : ground.Arrived temporary level bound pool position after :=
  { arrived with
    tidied := tidied.trans (arrived.tidied.weaken (Nat.le_refl _) near)
    heeded := heeded.trans arrived.heeded }

/-- The link of a position is set. -/
theorem Ground.Arrived.there {level bound : Nat} {after : Pool maxLevels Entry}
    {position : Nat × Nat} (arrived : ground.Arrived temporary level bound pool position after) :
    after.linkOf position.1 level ≠ Link.nil := by
  have inside := arrived.holds.inside arrived.adjacent.mem_spine
  rw [arrived.leads]
  exact Link.ofSlot_ne_nil (Pool.size_lt_slotLimit inside)

/-- A position stands on the spine. -/
theorem Ground.Arrived.mem_spine {level bound : Nat} {after : Pool maxLevels Entry}
    {position : Nat × Nat} (arrived : ground.Arrived temporary level bound pool position after) :
    ∀ slot ∈ [position.1, position.2], slot ∈ spine ground.line := by
  intro slot held
  rcases List.mem_cons.mp held with rfl | rest
  · exact mem_spine_of_mem_cons arrived.member
  · exact List.mem_singleton.mp rest ▸ arrived.adjacent.mem_spine

/-! ### Following a link -/

/-- A link at a level was followed from a node, or from a predecessor found instead. -/
structure Ground.Followed (ground : Ground) (temporary : List Nat) (node level : Nat)
    (pool : Pool maxLevels Entry) (position : Nat × Nat) (after : Pool maxLevels Entry) : Prop
    extends ground.Arrived temporary level (ground.rank node) pool position after where
  within : ground.rank position.1 ≤ ground.rank node
  /-- A link that leads somewhere is arrived at. -/
  arrives : ∀ next, pool.next? level node = some next → position.2 = next

/-- What follows the predecessor that a helped node handed its link over to follows that node. -/
theorem Ground.Followed.of_helped {node prev level : Nat} {middle after : Pool maxLevels Entry}
    {position : Nat × Nat} (followed : ground.Followed temporary prev level middle position after)
    (helped : ground.Finished temporary node level pool prev middle) :
    ground.Followed temporary node level pool position after := by
  have le := Nat.le_of_lt helped.before
  refine ⟨followed.toArrived.of_earlier helped.tidied helped.heeded le,
    Nat.le_trans followed.within le, fun next leads => followed.arrives next ?_⟩
  exact Pool.next?_of_linkOf (helped.handed next leads) (Link.slot_lt_of_slot? leads)

/-- The successor of a node was found. If the node is deleted, it is off the level now. -/
structure Ground.Succeeded (ground : Ground) (temporary : List Nat) (node level : Nat)
    (pool : Pool maxLevels Entry) (position : Nat × Nat) (after : Pool maxLevels Entry) : Prop
    extends ground.Followed temporary node level pool position after where
  off : ground.Dead node → after.linkOf node level = Link.cleared
  astray : ∀ hint, StaleHint pool level node hint → position.1 = hint

/-- A link of the line that names a slot leads to a neighbour. -/
theorem Ground.Holds.adjacent {front behind level : Nat} (holds : ground.Holds temporary pool)
    (member : front ∈ headSlot :: ground.line) (low : level < ground.maxHeight)
    (leads : pool.next? level front = some behind) :
    Adjacent ground.line pool level front behind :=
  (holds.lanes.threaded level low).adjacent front member behind leads

namespace Helping

/-- Stepping back from a deleted node. -/
theorem stepBack_ends (sound : helping.SoundBefore ground limit) {node level : Nat}
    (holds : ground.Holds (node :: temporary) pool) (member : node ∈ ground.line)
    (near : ground.rank node < limit) (reached : level < ground.height node)
    (dead : ground.Dead node) :
    Ends (helping.stepBack node level) pool (ground.Finished temporary node level pool) := by
  have inSpine : node ∈ spine ground.line := mem_spine_of_mem member
  unfold stepBack
  refine Ends.bind (holds.retain_ends inSpine fun held => ?_)
  refine Ends.andThen (sound.help node member near level reached _ _ held dead)
    fun prev after helped => ?_
  exact Ends.bind (helped.holds.swap.release_ends inSpine fun released =>
    Ends.pure (helped.of_retained.released released))

/-- Following a link, stepping back as often as it is marked. An unmarked link is followed from
where it is, also if its node is deleted. -/
theorem followOrStepBack_ends (sound : helping.SoundBefore ground limit) {level : Nat}
    (tries : Nat) {node : Nat} {pool : Pool maxLevels Entry}
    (holds : ground.Holds (node :: temporary) pool) (member : node ∈ headSlot :: ground.line)
    (near : ground.rank node < limit) (enough : ground.rank node < tries)
    (there : pool.linkOf node level ≠ Link.nil) (vouched : ground.Vouched level node pool) :
    Ends (helping.followOrStepBack level tries node) pool fun position after =>
      ground.Followed temporary node level pool position after ∧
        ((pool.linkOf node level).isMarked = false → position.1 = node) := by
  induction tries generalizing node pool with
  | zero => exact absurd enough (Nat.not_lt_zero _)
  | succ tries inductionHypothesis =>
    unfold followOrStepBack
    refine Ends.bind (holds.linkAt_ends member there ?_)
    cases marked : (pool.linkOf node level).isMarked with
    | false =>
      obtain ⟨next, leads, adjacent⟩ := holds.lanes.exists_next member there marked
      refine Ends.bind (Pool.follow_ends marked leads (holds.inside adjacent.mem_spine) ?_)
      have retained : ground.Holds (next :: node :: temporary) (pool.retained next) :=
        holds.recount (holds.held.retained (holds.inside adjacent.mem_spine))
      refine Ends.pure ⟨⟨⟨retained.swap, Tidied.of_recount _ _ _ _ _ _ _, member, ?_, ?_,
        Heeded.of_recount _ _ _, vouched.recount _ _⟩, Nat.le_refl _,
        fun other otherLeads => Option.some.inj (leads.symm.trans otherLeads)⟩, fun _ => rfl⟩
      · rw [Pool.linkOf_recount]
        exact Link.eq_ofSlot leads marked
      · refine retained.adjacent member (holds.lanes.level_lt member there) ?_
        rw [Pool.next?_recount]
        exact leads
    | true =>
      have inLine : node ∈ ground.line := by
        by_contra outside
        rw [ground.head_of_not_mem member outside, holds.lanes.headUnmarked] at marked
        exact Bool.false_ne_true marked
      have dead := holds.lanes.marked node inLine level marked
      refine Ends.bind (Pool.follow_ends_of_isMarked marked ?_)
      refine Ends.andThen (stepBack_ends sound holds inLine near
        (holds.lanes.top node member level there) dead) fun prev after helped => ?_
      have before := helped.before
      exact (inductionHypothesis helped.holds helped.member (by omega) (by omega)
        helped.there helped.vouched).imp fun position last followed =>
          ⟨followed.1.of_helped helped, nofun⟩

/-- The successor of a node. -/
theorem successor_ends (sound : helping.SoundBefore ground limit) {node level : Nat}
    (holds : ground.Holds (node :: temporary) pool) (member : node ∈ headSlot :: ground.line)
    (near : ground.rank node < limit) (there : pool.linkOf node level ≠ Link.nil) :
    Ends (helping.successor node level) pool (ground.Succeeded temporary node level pool) := by
  have enough : ∀ slot ∈ headSlot :: ground.line, ground.rank slot < helping.bound :=
    fun slot inLine => by
      have bound := sound.bound
      have short := rank_le_length ground.roster.distinct inLine
      unfold Ground.rank
      omega
  unfold successor
  refine Ends.bind (holds.isDeleted_ends (mem_spine_of_mem_cons member) ?_)
  by_cases dead : ground.Dead node
  · rw [if_pos (decide_eq_true dead)]
    have inLine := ground.mem_line_of_dead member dead
    refine Ends.andThen (stepBack_ends sound holds inLine near
      (holds.lanes.top node member level there) dead) fun prev after helped => ?_
    have before := helped.before
    refine (followOrStepBack_ends sound helping.bound helped.holds helped.member (by omega)
      (enough prev helped.member) helped.there helped.vouched).imp fun position last followed => ?_
    obtain ⟨followed, stays⟩ := followed
    refine ⟨followed.of_helped helped, fun _ => followed.tidied.cleared helped.off,
      fun hint stale => ?_⟩
    obtain ⟨rfl, unmarked⟩ := helped.astray hint stale
    exact stays unmarked
  · rw [if_neg (by simpa using dead)]
    refine (followOrStepBack_ends sound helping.bound holds member near (enough node member) there
      (Ground.Vouched.of_alive dead pool)).imp fun position last followed =>
        ⟨followed.1, fun isDead => absurd isDead dead, fun hint stale => ?_⟩
    have unmarked := holds.lanes.unmarked member dead level
    rw [stale.off, Link.isMarked_cleared] at unmarked
    exact absurd unmarked.symm Bool.false_ne_true

end Helping

/-! ### Seeking a key -/

/-- A key was sought from a start along a level: the position reached, whose first node was not
passed the start unless its key is smaller. -/
structure Ground.Sought (ground : Ground) (temporary : List Nat) (start level : Nat) (key : UInt64)
    (bound : Nat) (pool : Pool maxLevels Entry) (position : Nat × Nat)
    (after : Pool maxLevels Entry) : Prop
    extends ground.Arrived temporary level bound pool position after where
  reached : position.2 = tailSlot ∨ key ≤ ground.key position.2
  within : ground.rank position.1 ≤ ground.rank start ∨
    position.1 ∈ ground.line ∧ ground.key position.1 < key
  off : ground.Dead start → after.linkOf start level = Link.cleared

/-- No node with a smaller key stands behind a bound. -/
def Ground.Covers (ground : Ground) (bound : Nat) (key : UInt64) : Prop :=
  ∀ slot ∈ ground.line, ground.key slot < key → ground.rank slot ≤ bound

namespace Helping

theorem seekFrom_ends (sound : helping.SoundBefore ground limit) {level start bound : Nat}
    {key : UInt64} (low : level < ground.maxHeight) (boundLt : bound < limit)
    (covers : ground.Covers bound key) (steps : Nat) {position : Nat × Nat}
    {earlier pool : Pool maxLevels Entry}
    (arrived : ground.Arrived temporary level bound earlier position pool)
    (enough : ground.line.length + 2 ≤ steps + ground.rank position.2)
    (within : ground.rank position.1 ≤ ground.rank start ∨
      position.1 ∈ ground.line ∧ ground.key position.1 < key)
    (off : ground.Dead start → pool.linkOf start level = Link.cleared) :
    Ends (helping.seekFrom level key steps position.1 position.2) pool
      (ground.Sought temporary start level key bound earlier) := by
  have adjacent := arrived.adjacent
  induction steps generalizing position pool with
  | zero =>
    have short := adjacent.rank_le_tail ground.roster.distinct
    unfold Ground.rank at enough
    omega
  | succ steps inductionHypothesis =>
    unfold seekFrom
    refine Ends.bind (arrived.holds.standsBefore_ends adjacent.mem_spine ?_)
    by_cases before : position.2 ≠ tailSlot ∧ ground.key position.2 < key
    · rw [if_pos (decide_eq_true before)]
      have nextMember := adjacent.mem_of_ne_tail before.1
      have nextNear : ground.rank position.2 ≤ bound := covers _ nextMember before.2
      have nextLinked := (adjacent.ends.resolve_left before.1).2
      obtain ⟨target, nextLeads⟩ := nextLinked.exists_next?
      refine Ends.bind (arrived.holds.release_ends (mem_spine_of_mem_cons arrived.member)
        fun released => ?_)
      refine Ends.andThen (successor_ends sound released (List.mem_cons_of_mem _ nextMember)
        (by omega) (by rw [Pool.linkOf_recount]; exact nextLinked.ne_nil))
        fun found after followed => ?_
      have there : found.2 = target :=
        followed.arrives target (by rw [Pool.next?_recount]; exact nextLeads)
      have further : ground.rank position.2 < ground.rank found.2 := by
        rw [there]
        exact (arrived.holds.adjacent (List.mem_cons_of_mem _ nextMember) low nextLeads).before
      have goesOn : ground.Arrived temporary level bound earlier found after :=
        followed.toArrived.of_earlier (arrived.tidied.recount _ _) (arrived.heeded.recount _ _)
          nextNear
      refine inductionHypothesis goesOn (by omega) ?_ (fun dead => ?_) goesOn.adjacent
      · rcases List.mem_cons.mp followed.member with isHead | inLine
        · left
          rw [isHead]
          rw [ground.rank_head]
          exact Nat.zero_le _
        · right
          exact ⟨inLine, UInt64.lt_of_le_of_lt
            (ground.key_le_of_rank_le inLine nextMember followed.within) before.2⟩
      · exact followed.tidied.cleared (by rw [Pool.linkOf_recount]; exact off dead)
    · rw [if_neg (by simpa using before)]
      refine Ends.pure ⟨arrived, ?_, within, off⟩
      by_cases isTail : position.2 = tailSlot
      · exact Or.inl isTail
      · exact Or.inr (UInt64.not_lt.mp fun smaller => before ⟨isTail, smaller⟩)

/-- Seeking a key along a level. -/
theorem seek_ends (sound : helping.SoundBefore ground limit) {level start bound : Nat}
    {key : UInt64} (holds : ground.Holds (start :: temporary) pool)
    (member : start ∈ headSlot :: ground.line) (there : pool.linkOf start level ≠ Link.nil)
    (near : ground.rank start ≤ bound) (boundLt : bound < limit)
    (covers : ground.Covers bound key) :
    Ends (helping.seek start level key) pool
      (ground.Sought temporary start level key bound pool) := by
  have low := holds.lanes.level_lt member there
  have bounded := sound.bound
  unfold seek
  refine Ends.andThen (successor_ends sound holds member (by omega) there)
    fun position after followed => ?_
  exact seekFrom_ends sound low boundLt covers helping.bound
    (followed.toArrived.of_earlier (Tidied.refl _ _ _ _ _) (Heeded.refl _) near) (by omega)
    (Or.inl followed.within) followed.off

end Helping

/-- A descent ended: every level not above the bottom can be walked on from the node that is held
now, if it could be from the start. -/
structure Ground.Descended (ground : Ground) (temporary : List Nat) (start bottom top : Nat)
    (key : UInt64) (bound : Nat) (pool : Pool maxLevels Entry) (prev : Nat)
    (after : Pool maxLevels Entry) : Prop where
  holds : ground.Holds (prev :: temporary) after
  tidied : ground.Tidies bottom bound pool after
  member : prev ∈ headSlot :: ground.line
  there : ∀ level < top, level ≤ bottom → after.linkOf prev level ≠ Link.nil
  within : ground.rank prev ≤ ground.rank start ∨ prev ∈ ground.line ∧ ground.key prev < key
  heeded : Heeded pool after
  vouched : ground.Vouched bottom prev after

theorem Ground.Covers.rank_le {bound : Nat} {key : UInt64} (covers : ground.Covers bound key)
    {start slot : Nat} (near : ground.rank start ≤ bound)
    (within : ground.rank slot ≤ ground.rank start ∨
      slot ∈ ground.line ∧ ground.key slot < key) : ground.rank slot ≤ bound := by
  rcases within with early | ⟨member, smaller⟩
  · exact Nat.le_trans early near
  · exact covers slot member smaller

/-- A walk towards a key stays in front of it if it starts there. -/
theorem Ground.smaller_of_within {key : UInt64} {start slot : Nat}
    (starts : start = headSlot ∨ start ∈ ground.line ∧ ground.key start < key)
    (within : ground.rank slot ≤ ground.rank start ∨ slot ∈ ground.line ∧ ground.key slot < key)
    (member : slot ∈ headSlot :: ground.line) :
    slot = headSlot ∨ slot ∈ ground.line ∧ ground.key slot < key := by
  rcases within with early | smaller
  · refine (List.mem_cons.mp member).imp_right fun inLine => ⟨inLine, ?_⟩
    rcases starts with rfl | ⟨startMember, smaller⟩
    · have positive := rank_pos ground.roster.distinct inLine
      rw [ground.rank_head] at early
      exact absurd positive (Nat.not_lt_of_le early)
    · exact UInt64.lt_of_le_of_lt (ground.key_le_of_rank_le inLine startMember early) smaller
  · exact Or.inr smaller

/-- A node that a walk towards a key passed on to counts as passed on to from the walk's start. -/
theorem Ground.within_trans {key : UInt64} {start middle slot : Nat}
    (first : ground.rank middle ≤ ground.rank start ∨
      middle ∈ ground.line ∧ ground.key middle < key)
    (second : ground.rank slot ≤ ground.rank middle ∨
      slot ∈ ground.line ∧ ground.key slot < key) (member : slot ∈ headSlot :: ground.line) :
    ground.rank slot ≤ ground.rank start ∨ slot ∈ ground.line ∧ ground.key slot < key := by
  rcases second with early | later
  · rcases first with earlier | ⟨inLine, smaller⟩
    · exact Or.inl (Nat.le_trans early earlier)
    · rcases List.mem_cons.mp member with isHead | slotInLine
      · left
        rw [isHead]
        rw [ground.rank_head]
        exact Nat.zero_le _
      · exact Or.inr ⟨slotInLine, UInt64.lt_of_le_of_lt
          (ground.key_le_of_rank_le slotInLine inLine early) smaller⟩
  · exact Or.inr later

namespace Helping

/-- Seeking a key on one level after another. -/
theorem descend_ends (sound : helping.SoundBefore ground limit) {bottom bound : Nat}
    {key : UInt64} (boundLt : bound < limit) (covers : ground.Covers bound key) (count : Nat)
    {start top : Nat} {pool : Pool maxLevels Entry} (holds : ground.Holds (start :: temporary) pool)
    (member : start ∈ headSlot :: ground.line) (fits : bottom + count ≤ top)
    (there : ∀ level < top, pool.linkOf start level ≠ Link.nil)
    (near : ground.rank start ≤ bound) (vouched : count = 0 → ground.Vouched bottom start pool) :
    Ends (helping.descend bottom key count start) pool
      (ground.Descended temporary start bottom top key bound pool) := by
  induction count generalizing start top pool with
  | zero =>
    exact Ends.pure ⟨holds, Tidied.refl _ _ _ _ _, member, fun level low _ => there level low,
      Or.inl (Nat.le_refl _), Heeded.refl _, vouched rfl⟩
  | succ count inductionHypothesis =>
    unfold descend
    refine Ends.andThen (seek_ends sound holds member (there (bottom + count) (by omega)) near
      boundLt covers) fun position after sought => ?_
    have spine := sought.adjacent.mem_spine
    refine Ends.bind (sought.holds.swap.release_ends spine fun released => ?_)
    have walkable : ∀ level < bottom + count + 1,
        (after.surrendered position.2).linkOf position.1 level ≠ Link.nil := by
      intro level low
      rw [Pool.linkOf_recount]
      exact sought.holds.lanes.down position.1 sought.member (bottom + count) level
        (Nat.le_of_lt_succ low) sought.there
    refine (inductionHypothesis released sought.member (by omega) walkable
      (covers.rank_le near sought.within) ?_).imp fun prev last descended => ?_
    · rintro rfl
      exact sought.vouched.recount _ _
    have tidied : ground.Tidies bottom bound pool (after.surrendered position.2) :=
      (sought.tidied.weaken (Nat.le_add_right _ _) (Nat.le_refl _)).recount _ _
    exact { descended with
      tidied := tidied.trans descended.tidied
      there := fun level _ le => descended.there level (by omega) le
      within := Ground.within_trans sought.within descended.within descended.member
      heeded := (sought.heeded.recount _ _).trans descended.heeded }

/-- The head can be walked on from at every level. -/
theorem head_there (holds : ground.Holds temporary pool) {level : Nat}
    (low : level < ground.maxHeight) : pool.linkOf headSlot level ≠ Link.nil :=
  (holds.lanes.threaded level low).head.ne_nil

/-- Seeking a key at level 0 from the head, over all the levels above. -/
theorem seekFromHead_ends (sound : helping.SoundBefore ground limit) {bound : Nat} {key : UInt64}
    (holds : ground.Holds temporary pool) (boundLt : bound < limit)
    (covers : ground.Covers bound key) :
    Ends (helping.seekFromHead ground.maxHeight key) pool
      (ground.Sought temporary headSlot 0 key bound pool) := by
  have heights := ground.roster.heights
  have headNear : ground.rank headSlot ≤ bound := by
    rw [ground.rank_head]
    exact Nat.zero_le _
  unfold seekFromHead
  refine Ends.bind (holds.retain_ends (head_mem_spine _) fun held => ?_)
  refine Ends.andThen (descend_ends sound boundLt covers
    (ground.maxHeight - 1) held List.mem_cons_self (by omega)
    (fun level (low : level < ground.maxHeight) => head_there held low) headNear
    fun _ => Ground.Vouched.of_alive ground.not_dead_head _) fun prev after descended => ?_
  refine (seek_ends sound descended.holds descended.member
    (descended.there 0 (by omega) (by omega)) (covers.rank_le headNear descended.within) boundLt
    covers).imp fun position last sought => ?_
  have tidied : ground.Tidies 0 bound pool after :=
    (Tidied.of_recount _ _ _ _ _ _ _).trans
      (descended.tidied.weaken (Nat.zero_le _) (Nat.le_refl _))
  exact { sought with
    tidied := tidied.trans sought.tidied
    within := Ground.within_trans descended.within sought.within sought.member
    heeded := ((Heeded.of_recount _ _ _).trans descended.heeded).trans sought.heeded
    off := fun dead => absurd dead ground.not_dead_head }

/-- The first node whose key is not below a key stands behind some node at level 0. -/
theorem firstFrom_ends (sound : helping.SoundBefore ground limit) {bound : Nat} {key : UInt64}
    (holds : ground.Holds temporary pool) (boundLt : bound < limit)
    (covers : ground.Covers bound key) :
    Ends (helping.firstFrom ground.maxHeight key) pool fun next after =>
      ground.Holds (next :: temporary) after ∧ ground.Tidies 0 bound pool after ∧
        ∃ prev ∈ headSlot :: ground.line, Adjacent ground.line after 0 prev next ∧
          (prev = headSlot ∨ prev ∈ ground.line ∧ ground.key prev < key) ∧
          (next = tailSlot ∨ key ≤ ground.key next) := by
  unfold firstFrom
  refine Ends.andThen (seekFromHead_ends sound holds boundLt covers) fun position after sought => ?_
  exact Ends.bind (sought.holds.release_ends (mem_spine_of_mem_cons sought.member)
    fun released => Ends.pure ⟨released, sought.tidied.recount _ _, position.1, sought.member,
      sought.adjacent.recount _ _,
      Ground.smaller_of_within (Or.inl rfl) sought.within sought.member, sought.reached⟩)

end Helping

end PriorityQueue

end PooledContainers
