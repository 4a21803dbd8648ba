/-
The stages of a removal and the walks that help, taken one at a time by a session. Most of them only
tidy up: they keep the session in order and leave what the queue holds as it is.
-/

import PooledContainers.Proofs.PriorityQueue.Entries
import PooledContainers.Proofs.PriorityQueue.Levels
import PooledContainers.Proofs.PriorityQueue.Meaning

namespace PooledContainers

namespace PriorityQueue

open Line Operation Pool Session

/-! ### Acting on a queue -/

section Acting

variable {queue : PriorityQueue} {Outcome : Type} {condition : Outcome → PriorityQueue → Prop}

theorem onNodes_ends {walk : Walk Outcome}
    (ends : Ends walk queue.pool fun outcome pool => condition outcome { queue with pool }) :
    Ends (onNodes walk) queue condition :=
  Ends.within ends

theorem onLevels_ends {walk : Helping → Nat → Walk Outcome} {maxHeight : Nat}
    (height : queue.maxHeight = maxHeight)
    (ends : Ends (walk (helpingFor maxHeight queue.pool.size) maxHeight) queue.pool
      fun outcome pool => condition outcome { queue with pool }) :
    Ends (onLevels walkBound walk) queue condition := by
  subst height
  exact Ends.onStart (onNodes_ends ends)

end Acting

/-! ### Showing nodes -/

section Shown

variable {ground : Ground} {temporary : List Nat} {pool : Pool maxLevels Entry}

theorem showPredecessor_ends {prev : Nat} (holds : ground.Holds (prev :: temporary) pool)
    (member : prev ∈ spine ground.line) :
    Ends (showPredecessor prev) pool fun answer after =>
      (∃ name, answer = .predecessor name) ∧ ground.Holds temporary after := by
  unfold showPredecessor
  refine Ends.bind (nameOf_ends (holds.inside member) ?_)
  exact Ends.bind (holds.release_ends member fun released => Ends.pure ⟨⟨_, rfl⟩, released⟩)

theorem showPosition_ends {position : Nat × Nat}
    (holds : ground.Holds (position.1 :: position.2 :: temporary) pool)
    (prevMember : position.1 ∈ spine ground.line) (nextMember : position.2 ∈ spine ground.line) :
    Ends (showPosition position) pool fun answer after =>
      (∃ prev next, answer = .position prev next) ∧ ground.Holds temporary after := by
  unfold showPosition
  refine Ends.bind (nameOf_ends (holds.inside prevMember) ?_)
  refine Ends.bind (nameOf_ends (holds.inside nextMember) ?_)
  exact Ends.bind (holds.swap.releaseBoth_ends nextMember prevMember fun _ done =>
    Ends.pure ⟨⟨_, _, rfl⟩, done⟩)

end Shown

/-! ### Steps that tidy up -/

variable {options : Options} {history : History} {session after : Session PriorityQueue Handle}
  {line free : List Nat}

/-- A step keeps the session in order and what the queue holds, and forgets nothing of deleted
nodes; or it is refused and changes nothing. -/
structure Quiet (options : Options) (history : History) (session : Session PriorityQueue Handle)
    (answer : Answer) (after : Session PriorityQueue Handle) : Prop where
  inOrder : ∃ line free, InOrder options history after line free
  same : contents after.subject = contents session.subject
  remembers : Remembers session.subject.pool after.subject.pool
  refused : ∀ reason, answer = .refused reason → after = session

namespace InOrder

theorem quiet (inOrder : InOrder options history session line free) (answer : Answer) :
    Quiet options history session answer session :=
  ⟨⟨line, free, inOrder⟩, rfl, Remembers.refl _, fun _ _ => rfl⟩

/-- A node that is not pending was deleted. -/
theorem deleted_of_not_pending (inOrder : InOrder options history session line free) {slot : Nat}
    (member : slot ∈ line) (notPending : history.pending slot = false) :
    Deleted session.subject.pool slot := by
  have consistent := inOrder.consistent
  by_contra alive
  have linked := consistent.holds.linked_of_alive consistent.lanes consistent.whole member alive
  rw [consistent.linkedPending slot member 0 linked] at notPending
  exact Bool.false_ne_true notPending.symm

/-- A session whose walk holds counts on some nodes yet, which its handles take over. -/
theorem of_holds (inOrder : InOrder options history session line free)
    (handles : HandleTable Handle) {temporary : List Nat} {pool : Pool maxLevels Entry}
    (holds : inOrder.consistent.ground.Holds temporary pool)
    (members : ∀ slot ∈ temporary, slot ∈ spine line)
    (counted : ∀ slot, handlesOn handles slot =
      handlesOn session.handles slot + temporary.count slot)
    (handled : Handled handles history.pending pool) :
    InOrder options history ⟨{ session.subject with pool }, handles⟩ line free ∧
      contents { session.subject with pool } = contents session.subject ∧
      Remembers session.subject.pool pool := by
  have whole : without line [] = line := by simp [without]
  have walked : Consistent options.height (without line []) free [] history.pending
      (handlesOn handles) pool :=
    whole.symm ▸ (inOrder.consistent.walked holds members).congr counted
  have unaltered := inOrder.unaltered ⟨{ session.subject with pool }, handles⟩ walked handled
    ⟨rfl, rfl, holds.size, (Int.add_zero _).symm⟩
    holds.tidied.body fun slot _ inNone => absurd inNone (by simp)
  rwa [whole] at unaltered

/-- The handles are as good as before if only links have changed. -/
theorem handled_of_holds (inOrder : InOrder options history session line free)
    {temporary : List Nat} {pool : Pool maxLevels Entry}
    (holds : inOrder.consistent.ground.Holds temporary pool) :
    Handled session.handles history.pending pool :=
  inOrder.handled.mono holds.size fun slot _ dead isPending =>
    ⟨(deleted_congr (holds.tidied.body slot)).mpr dead, isPending⟩

/-- A walk that gives up all that it held. -/
theorem walked (inOrder : InOrder options history session line free)
    {pool : Pool maxLevels Entry} (holds : inOrder.consistent.ground.Holds [] pool) :
    InOrder options history { session with subject := { session.subject with pool } } line free ∧
      contents { session.subject with pool } = contents session.subject ∧
      Remembers session.subject.pool pool :=
  inOrder.of_holds session.handles holds (by simp) (fun _ => rfl) (inOrder.handled_of_holds holds)

/-- A handle is on a node of the pool. -/
theorem handle_inside (inOrder : InOrder options history session line free) {name : String}
    {handle : Handle} (found : session.handles.find? name = some handle) :
    handle.node < session.subject.pool.size :=
  inOrder.handled.fits handle (HandleTable.mem_handles_of_find? found)

/-! ### Stages at a level -/

/-- What a stage at a level may rely on, given what it asks. -/
structure Meets (pool : Pool maxLevels Entry) (node level : Nat) (demand : Demand) : Prop where
  inner : node ≠ tailSlot
  reached : level < (pool.bodyOf node).height
  deleted : demand = .deleted ∨ demand = .marked → Deleted pool node

theorem refusal?_ends (inOrder : InOrder options history session line free) {node level : Nat}
    {demand : Demand} (member : node ∈ spine line) :
    Ends (refusal? node level demand) session.subject.pool fun refusal pool =>
      pool = session.subject.pool ∧
        (refusal = none → Meets session.subject.pool node level demand) := by
  have consistent := inOrder.consistent
  have inside := consistent.roster.inside node member
  unfold refusal?
  by_cases isTail : node = tailSlot
  · rw [if_pos isTail]
    exact Ends.pure ⟨rfl, nofun⟩
  · rw [if_neg isTail]
    refine Ends.bind (bodyAt_ends inside ?_)
    by_cases above : (session.subject.pool.bodyOf node).height ≤ level
    · rw [if_pos above]
      exact Ends.pure ⟨rfl, nofun⟩
    · rw [if_neg above]
      have low := Nat.lt_of_not_le above
      cases demand with
      | reached => exact Ends.pure ⟨rfl, fun _ => ⟨isTail, low, by simp⟩⟩
      | deleted =>
        refine Ends.pure ⟨rfl, fun none => ⟨isTail, low, fun _ => ?_⟩⟩
        by_contra alive
        rw [if_neg (show ¬ (session.subject.pool.bodyOf node).datum.isDeleted = true from alive)]
          at none
        exact absurd none (by simp)
      | marked =>
        have nodeMember := mem_cons_of_mem_spine member isTail
        have levelLt : level < maxLevels := Nat.lt_of_lt_of_le low
          (Nat.le_trans (consistent.ground.height_le nodeMember)
            consistent.roster.heights.2)
        refine Ends.bind (linkAt_ends inside low levelLt (Ends.pure ⟨rfl, fun none => ⟨isTail, low,
          fun _ => ?_⟩⟩))
        by_contra alive
        rw [show (session.subject.pool.bodyOf node).datum.isDeleted = false from
          Bool.eq_false_iff.mpr alive] at none
        exact absurd none (by simp)

/-- A stage at a level that gives up all that it holds keeps the session in order. -/
theorem takeAt_ends (inOrder : InOrder options history session line free) {name : String}
    {level : Nat} {demand : Demand} {stage : Helping → Nat → Walk Answer}
    (stageEnds : ∀ node ∈ headSlot :: line, Meets session.subject.pool node level demand →
      Ends (stage (helpingFor options.height session.subject.pool.size) node)
        session.subject.pool fun answer pool =>
          (∀ reason, answer ≠ .refused reason) ∧ inOrder.consistent.ground.Holds [] pool) :
    Ends (takeAt walkBound name level demand stage) session (Quiet options history session) := by
  unfold takeAt
  refine withHandle_ends (fun _ => inOrder.quiet _) fun handle found => ?_
  have member := inOrder.handle_mem_spine found
  refine Ends.bind (act_ends (onNodes_ends ((inOrder.refusal?_ends member).imp
    fun refusal pool refused => ?_)))
  obtain ⟨rfl, meets⟩ := refused
  cases refusal with
  | some reason => exact Ends.pure (inOrder.quiet _)
  | none =>
    have ready := meets rfl
    have nodeMember := mem_cons_of_mem_spine member ready.inner
    refine act_ends (onLevels_ends inOrder.maxHeight
      ((stageEnds handle.node nodeMember ready).imp fun answer pool staged => ?_))
    obtain ⟨notRefused, holds⟩ := staged
    obtain ⟨stays, same, remembers⟩ := inOrder.walked holds
    exact ⟨⟨line, free, stays⟩, same, remembers,
      fun reason answered => absurd answered (notRefused reason)⟩

/-! ### The stages one by one -/

section Each

variable (inOrder : InOrder options history session line free)
  {node level : Nat} {demand : Demand}

include inOrder

theorem mem_line_of_meets (nodeMember : node ∈ headSlot :: line)
    (meets : Meets session.subject.pool node level demand)
    (asks : demand = .deleted ∨ demand = .marked) :
    node ∈ line ∧ Deleted session.subject.pool node :=
  ⟨inOrder.consistent.ground.mem_line_of_dead nodeMember (meets.deleted asks),
    meets.deleted asks⟩

/-- A walk that takes a count on a node of the queue to start from. -/
theorem startingFrom_ends {Outcome : Type} {walk : Helping → Walk Outcome}
    {condition : Outcome → PriorityQueue → Prop} (nodeMember : node ∈ headSlot :: line)
    (ends : inOrder.consistent.ground.Holds [node] (session.subject.pool.retained node) →
      Ends (walk (helpingFor options.height session.subject.pool.size))
        (session.subject.pool.retained node) fun outcome pool =>
          condition outcome { session.subject with pool }) :
    Ends (onLevels walkBound fun helping _ => do
        Pool.retain node
        walk helping) session.subject condition :=
  onLevels_ends inOrder.maxHeight (Ends.bind
    (inOrder.consistent.holds.retain_ends (mem_spine_of_mem_cons nodeMember) ends))

/-- A node of the queue has been linked at all of its levels. -/
theorem there_of_reached (nodeMember : node ∈ headSlot :: line)
    (reached : level < (session.subject.pool.bodyOf node).height) :
    session.subject.pool.linkOf node level ≠ Link.nil := by
  refine inOrder.consistent.lanes.valid node nodeMember level ?_
  rcases List.mem_cons.mp nodeMember with rfl | inLine
  · rw [inOrder.consistent.roster.headHeight] at reached
    rwa [inOrder.consistent.roster.headValid]
  · rwa [inOrder.consistent.whole node inLine]

theorem rank_lt_bound (nodeMember : node ∈ headSlot :: line) :
    rank line node < line.length + 2 := by
  have short := rank_le_length inOrder.consistent.roster.distinct nodeMember
  omega

theorem markLinks_stage (nodeMember : node ∈ headSlot :: line)
    (meets : Meets session.subject.pool node level .deleted) :
    Ends (do
        let entry ← Pool.bodyAt node
        let marked ← markLinks node level (entry.height - level)
        pure (Answer.flags marked)) session.subject.pool fun answer pool =>
      (∀ reason, answer ≠ .refused reason) ∧ inOrder.consistent.ground.Holds [] pool := by
  obtain ⟨inLine, dead⟩ := inOrder.mem_line_of_meets nodeMember meets (Or.inl rfl)
  have reached := meets.reached
  refine Ends.bind (bodyAt_ends (inOrder.consistent.inside inLine) ?_)
  refine Ends.andThen (markLinks_ends
    (show node ∈ inOrder.consistent.ground.line from inLine) dead _
    (Nat.le_refl level) ?_ inOrder.consistent.holds) fun marked pool marks =>
      Ends.pure ⟨nofun, marks.holds⟩
  show level + _ ≤ (session.subject.pool.bodyOf node).height
  omega

/-- Taking a committed node off a level from the head, or from a node with a smaller key that
reaches the level. Where it starts is held. -/
theorem bypassFrom_ends (member : node ∈ line) (dead : Deleted session.subject.pool node)
    (reached : level < (session.subject.pool.bodyOf node).height) {start : Nat}
    (starts : start = headSlot ∨ start ∈ line ∧
      keyOf session.subject.pool start < keyOf session.subject.pool node ∧
      level < (session.subject.pool.bodyOf start).height) {pool : Pool maxLevels Entry}
    (retained : inOrder.consistent.ground.Holds [start] pool) :
    Ends ((helpingFor options.height session.subject.pool.size).bypass node start level) pool
      (inOrder.consistent.ground.Helped [] node level pool) := by
  have inGround : node ∈ inOrder.consistent.ground.line := member
  have sound := inOrder.consistent.sound.weaken
    (Nat.le_of_lt (inOrder.rank_lt_bound (List.mem_cons_of_mem _ member)))
  have startMember : start ∈ headSlot :: line :=
    List.mem_cons.mpr (starts.imp_right fun inner => inner.1)
  refine Helping.bypass_ends inGround dead reached sound retained startMember ?before ?there
  case before =>
    rcases starts with rfl | ⟨inLine, smaller, -⟩
    · show rank line headSlot < rank line node
      rw [rank_head]
      exact rank_pos inOrder.consistent.roster.distinct member
    · exact inOrder.consistent.ground.rank_lt_of_key_lt inLine member smaller
  case there =>
    rcases starts with rfl | ⟨inLine, -, startReached⟩
    · exact Helping.head_there retained
        (Nat.lt_of_lt_of_le reached (inOrder.consistent.roster.heightLe node member))
    · exact retained.tidied.linkOf_ne_nil (inOrder.there_of_reached startMember startReached)

theorem bypass_stage (nodeMember : node ∈ headSlot :: line)
    (meets : Meets session.subject.pool node level .marked) :
    Ends (do
        Pool.retain headSlot
        let prev ← (helpingFor options.height session.subject.pool.size).bypass node headSlot level
        showPredecessor prev) session.subject.pool fun answer pool =>
      (∀ reason, answer ≠ .refused reason) ∧ inOrder.consistent.ground.Holds [] pool := by
  obtain ⟨inLine, dead⟩ := inOrder.mem_line_of_meets nodeMember meets (Or.inr rfl)
  refine Ends.bind (inOrder.consistent.holds.retain_ends (head_mem_spine _) fun retained => ?_)
  refine Ends.andThen (inOrder.bypassFrom_ends inLine dead meets.reached (Or.inl rfl) retained)
    fun prev pool helped => ?_
  refine (showPredecessor_ends helped.holds (mem_spine_of_mem_cons helped.member)).imp
    fun answer after shown => ?_
  obtain ⟨⟨name, rfl⟩, holds⟩ := shown
  exact ⟨nofun, holds⟩

theorem help_stage (nodeMember : node ∈ headSlot :: line)
    (meets : Meets session.subject.pool node level .deleted) :
    Ends (do
        Pool.retain node
        let prev ← (helpingFor options.height session.subject.pool.size).help node level
        showPredecessor prev) session.subject.pool fun answer pool =>
      (∀ reason, answer ≠ .refused reason) ∧ inOrder.consistent.ground.Holds [] pool := by
  obtain ⟨inLine, dead⟩ := inOrder.mem_line_of_meets nodeMember meets (Or.inl rfl)
  refine Ends.bind (inOrder.consistent.holds.retain_ends (mem_spine_of_mem inLine)
    fun retained => ?_)
  refine Ends.andThen (inOrder.consistent.sound.help node inLine
    (inOrder.rank_lt_bound nodeMember) level meets.reached _ _ retained dead)
    fun prev pool helped => ?_
  refine (showPredecessor_ends helped.holds (mem_spine_of_mem_cons helped.member)).imp
    fun answer after shown => ?_
  obtain ⟨⟨name, rfl⟩, holds⟩ := shown
  exact ⟨nofun, holds⟩

/-- The search for the successor of a node, which is held. -/
theorem successorFromNode_ends (nodeMember : node ∈ headSlot :: line)
    (reached : level < (session.subject.pool.bodyOf node).height)
    (retained : inOrder.consistent.ground.Holds [node] (session.subject.pool.retained node)) :
    Ends ((helpingFor options.height session.subject.pool.size).successor node level)
      (session.subject.pool.retained node) (inOrder.consistent.ground.Succeeded [] node level
        (session.subject.pool.retained node)) := by
  have there := inOrder.there_of_reached nodeMember reached
  exact Helping.successor_ends inOrder.consistent.sound retained nodeMember
    (inOrder.rank_lt_bound nodeMember) (by rwa [linkOf_recount])

theorem successor_stage (nodeMember : node ∈ headSlot :: line)
    (meets : Meets session.subject.pool node level .reached) :
    Ends (do
        Pool.retain node
        let position ← (helpingFor options.height session.subject.pool.size).successor node level
        showPosition position) session.subject.pool fun answer pool =>
      (∀ reason, answer ≠ .refused reason) ∧ inOrder.consistent.ground.Holds [] pool := by
  refine Ends.bind (inOrder.consistent.holds.retain_ends (mem_spine_of_mem_cons nodeMember)
    fun retained => ?_)
  refine Ends.andThen (inOrder.successorFromNode_ends nodeMember meets.reached retained)
    fun position pool followed => ?_
  refine (showPosition_ends followed.holds (mem_spine_of_mem_cons followed.member)
    followed.adjacent.mem_spine).imp fun answer after shown => ?_
  obtain ⟨⟨prev, next, rfl⟩, holds⟩ := shown
  exact ⟨nofun, holds⟩

/-- Seeking any key from a node, which is held. -/
theorem seekFromNode_ends (key : UInt64) (nodeMember : node ∈ headSlot :: line)
    (reached : level < (session.subject.pool.bodyOf node).height)
    (retained : inOrder.consistent.ground.Holds [node] (session.subject.pool.retained node)) :
    Ends ((helpingFor options.height session.subject.pool.size).seek node level key)
      (session.subject.pool.retained node) (inOrder.consistent.ground.Sought [] node level key
        line.length (session.subject.pool.retained node)) := by
  have there := inOrder.there_of_reached nodeMember reached
  have distinct := inOrder.consistent.roster.distinct
  have covers : inOrder.consistent.ground.Covers line.length key := fun slot member _ =>
    rank_le_length distinct (List.mem_cons_of_mem _ member)
  exact Helping.seek_ends inOrder.consistent.sound retained nodeMember (by rwa [linkOf_recount])
    (rank_le_length distinct nodeMember) (Nat.lt_add_of_pos_right Nat.two_pos) covers

theorem seek_stage (key : UInt64) (nodeMember : node ∈ headSlot :: line)
    (meets : Meets session.subject.pool node level .reached) :
    Ends (do
        Pool.retain node
        let position ← (helpingFor options.height session.subject.pool.size).seek node level key
        showPosition position) session.subject.pool fun answer pool =>
      (∀ reason, answer ≠ .refused reason) ∧ inOrder.consistent.ground.Holds [] pool := by
  refine Ends.bind (inOrder.consistent.holds.retain_ends (mem_spine_of_mem_cons nodeMember)
    fun retained => ?_)
  refine Ends.andThen (inOrder.seekFromNode_ends key nodeMember meets.reached retained)
    fun position pool sought => ?_
  refine (showPosition_ends sought.holds (mem_spine_of_mem_cons sought.member)
    sought.adjacent.mem_spine).imp fun answer after shown => ?_
  obtain ⟨⟨prev, next, rfl⟩, holds⟩ := shown
  exact ⟨nofun, holds⟩

end Each

end InOrder

end PriorityQueue

end PooledContainers
