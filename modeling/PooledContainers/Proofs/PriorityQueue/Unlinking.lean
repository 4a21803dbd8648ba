/-
Committed nodes come off their levels. A node that is taken off a level from the head or from a node
with a smaller key, or helped there, is off that level: its link there is cleared, and no link that
can be reached names it, however many nodes with its key stand in front. A removal takes its node
off one level after another with a single predecessor that it carries down, and each level is done
when it goes on to the one below; when it is finished, the node cannot be reached on any level at
all.
-/

import PooledContainers.Proofs.PriorityQueue.Runs

namespace PooledContainers

namespace PriorityQueue

open Line Operation Pool

/-! ### Off a level -/

/-- A node is off a level: its link there is cleared, and the level does not lead to it. -/
structure OffLevel (pool : Pool maxLevels Entry) (node level : Nat) : Prop where
  cleared : pool.linkOf node level = Link.cleared
  unreached : ¬ pool.Met level node

/-- A removal of a node may be looked at when it has got down to any of the node's levels, and then
the node is off that level and off all levels above it. -/
structure PassesDown (queue : PriorityQueue) (node : Nat) : Prop where
  parts : ∀ bottom ≤ (queue.pool.bodyOf node).height, ∀ helping,
    completeRemoval helping node queue.pool =
      (completeDownTo helping node bottom >>= completeBelow helping node bottom) queue.pool
  off : ∀ bottom ≤ (queue.pool.bodyOf node).height,
    Ends (onLevels walkBound fun helping _ => completeDownTo helping node bottom) queue
      fun _ after => ∀ level < (queue.pool.bodyOf node).height, bottom ≤ level →
        OffLevel after.pool node level

namespace Consistent

variable {maxHeight : Nat} {line free fresh : List Nat} {pending : Nat → Bool} {held : Nat → Nat}
  {pool after : Pool maxLevels Entry} {node : Nat}

/-- After a walk, what has a cleared link at a level is off it. -/
theorem offLevel (consistent : Consistent maxHeight line free fresh pending held pool)
    {temporary : List Nat} {level : Nat} (holds : consistent.ground.Holds temporary after)
    (members : ∀ slot ∈ temporary, slot ∈ spine line) (member : node ∈ line)
    (cleared : after.linkOf node level = Link.cleared) : OffLevel after node level :=
  ⟨cleared, fun met => not_linked_of_cleared cleared
    ((consistent.walked holds members).linked_of_met met member)⟩

/-- A walk that ends at a predecessor of a node that it helped leaves the node off the level. -/
theorem offLevel_of_helped (consistent : Consistent maxHeight line free fresh pending held pool)
    {temporary : List Nat} {level prev : Nat} {start : Pool maxLevels Entry}
    (members : ∀ slot ∈ temporary, slot ∈ spine line) (member : node ∈ line)
    (helped : consistent.ground.Helped temporary node level start prev after) :
    OffLevel after node level := by
  refine consistent.offLevel helped.holds (fun slot held => ?_) member helped.off
  rcases List.mem_cons.mp held with rfl | rest
  · exact mem_spine_of_mem_cons helped.member
  · exact members slot rest

/-- A removal passes down the levels of its node. -/
theorem passesDown (consistent : Consistent maxHeight line free fresh pending held pool)
    {queue : PriorityQueue} (height : queue.maxHeight = maxHeight) (member : node ∈ line)
    (dead : Deleted pool node) : PassesDown { queue with pool } node where
  parts _ fits helping := completeRemoval_eq helping (consistent.inside member) fits
  off bottom fits := by
    refine onLevels_ends height ((consistent.completeDownTo_ends member dead fits).imp
      fun prev after taken level reached above => ?_)
    obtain ⟨holds, prevMember, off⟩ := taken
    refine consistent.offLevel holds (fun slot held => ?_) member (off level reached above)
    rw [List.mem_singleton.mp held]
    exact mem_spine_of_mem_cons prevMember

end Consistent

/-! ### Every way off a level -/

namespace InOrder

variable {options : Options} {history : History} {session : Session PriorityQueue Handle}
  {line free : List Nat} {node : Nat}

/-- A node whose removal was finished cannot be reached. -/
theorem not_met_of_finished
    (inOrder : InOrder options (history.finished node) session line free)
    (inner : isSentinel node = false) (level : Nat) : ¬ session.subject.pool.Met level node := by
  have consistent := inOrder.consistent
  intro met
  have member := mem_of_mem_spine (consistent.mem_spine_of_met met) inner
  have isPending := consistent.linkedPending node member level (consistent.linked_of_met met member)
  exact (finish_eq_true_iff.mp isPending).2 rfl

/-- Taking a committed node off a level. -/
theorem bypass_off (inOrder : InOrder options history session line free) (member : node ∈ line)
    (dead : Deleted session.subject.pool node) {level : Nat}
    (reached : level < (session.subject.pool.bodyOf node).height) {start : Nat}
    (starts : start = headSlot ∨ start ∈ line ∧
      keyOf session.subject.pool start < keyOf session.subject.pool node ∧
      level < (session.subject.pool.bodyOf start).height) :
    Ends (onLevels walkBound fun helping _ => do
        Pool.retain start
        helping.bypass node start level) session.subject fun _ after =>
      OffLevel after.pool node level := by
  have consistent := inOrder.consistent
  have startMember : start ∈ headSlot :: line :=
    List.mem_cons.mpr (starts.imp_right fun inner => inner.1)
  refine inOrder.startingFrom_ends startMember fun retained => ?_
  exact (inOrder.bypassFrom_ends member dead reached starts retained).imp fun prev after helped =>
    consistent.offLevel_of_helped (by simp) member helped

/-- Helping a committed node at a level. -/
theorem help_off (inOrder : InOrder options history session line free) (member : node ∈ line)
    (dead : Deleted session.subject.pool node) {level : Nat}
    (reached : level < (session.subject.pool.bodyOf node).height) :
    Ends (onLevels walkBound fun helping _ => do
        Pool.retain node
        helping.help node level) session.subject fun _ after =>
      OffLevel after.pool node level := by
  have consistent := inOrder.consistent
  have inner := List.mem_cons_of_mem headSlot member
  refine inOrder.startingFrom_ends inner fun retained => ?_
  exact (consistent.sound.help node member (inOrder.rank_lt_bound inner) level reached _ _
    retained dead).imp
      fun prev after helped => consistent.offLevel_of_helped (by simp) member helped.toHelped

/-- The removal of the smallest entry passes down the levels of the node that it commits. -/
theorem commitMin_passesDown (inOrder : InOrder options history session line free) :
    Ends (onLevels walkBound fun helping _ => commitMin helping) session.subject
      fun found after => ∀ first, found = some first → PassesDown after first := by
  refine onLevels_ends inOrder.maxHeight (inOrder.consistent.commitMin_ends.imp
    fun found after committed => ?_)
  cases committed with
  | none => exact nofun
  | @some first _ member _ _ consistent _ body =>
    rintro _ ⟨⟩
    refine consistent.passesDown inOrder.maxHeight member ((deleted_congr (body first)).mpr ?_)
    exact (deleted_committed_iff (inOrder.consistent.inside member) first).mpr (Or.inl rfl)

/-- Completing a removal leaves its node on no level. -/
theorem complete_off (inOrder : InOrder options history session line free) {name : String}
    {handle : Handle} (found : session.handles.find? name = some handle)
    (owner : handle.owner = true) :
    Ends (take (.complete name)) session fun answer after =>
      (∃ payload, answer = .payload payload) ∧
        ∀ level, ¬ after.subject.pool.Met level handle.node := by
  have isPending := (inOrder.handled.owned handle.node (HandleTable.mem_owned found owner)).2
  have inner := inOrder.consistent.isSentinel_eq_false
    (inOrder.consistent.pendingInside handle.node isPending)
  refine (inOrder.take_ends (.complete name)).imp fun answer after moved => ?_
  have means : CompleteMeans session answer after handle :=
    (Session.handleMeans_iff found).mp moved.means
  obtain rfl := means.owned owner
  obtain ⟨later, laterFree, stays⟩ := moved.inOrder nofun
  rw [next_complete found] at stays
  exact ⟨⟨_, rfl⟩, stays.not_met_of_finished inner⟩

/-- The removal of the smallest entry leaves the node of that entry on no level. -/
theorem extractMin_off (inOrder : InOrder options history session line free) :
    Ends (take .extractMin) session fun answer after => ∀ key payload,
      answer = .entry (some (key, payload)) → ∃ first, Live session.subject.pool first ∧
        keyOf session.subject.pool first = key ∧ ∀ level, ¬ after.subject.pool.Met level first := by
  refine (inOrder.take_ends .extractMin).imp fun answer after moved key payload answered => ?_
  obtain rfl := answered
  obtain ⟨later, laterFree, stays⟩ := moved.inOrder nofun
  obtain ⟨_, answered, means⟩ := moved.means
  obtain rfl := Answer.entry.inj answered
  cases means with
  | some _ _ holds _ _ =>
    obtain ⟨first, live, rfl, -⟩ := (contents_eq_some_iff inOrder.consistent).mp holds
    rw [inOrder.next_extractMin live] at stays
    exact ⟨first, live, rfl, stays.not_met_of_finished live.1.1⟩

end InOrder

/-! ### Runs -/

/-- How the committed nodes of a queue come off their levels. -/
structure Unlinks (session : Session PriorityQueue Handle) : Prop where
  /-- A committed node that is taken off a level from the head, or from any node with a smaller key
  that reaches the level, is off the level, -/
  bypass : ∀ node, Inserted session.subject.pool node → Deleted session.subject.pool node →
    ∀ level < (session.subject.pool.bodyOf node).height, ∀ start,
      (start = headSlot ∨ Inserted session.subject.pool start ∧
        keyOf session.subject.pool start < keyOf session.subject.pool node ∧
        level < (session.subject.pool.bodyOf start).height) →
      Ends (onLevels walkBound fun helping _ => do
          Pool.retain start
          helping.bypass node start level) session.subject fun _ after =>
        OffLevel after.pool node level
  /-- and so is one that is helped there, from its reference back or from where a search from the
  head ends. -/
  help : ∀ node, Inserted session.subject.pool node → Deleted session.subject.pool node →
    ∀ level < (session.subject.pool.bodyOf node).height,
      Ends (onLevels walkBound fun helping _ => do
          Pool.retain node
          helping.help node level) session.subject fun _ after =>
        OffLevel after.pool node level
  /-- Each level of the pass that completes a removal is done before the next, -/
  complete : ∀ node, Inserted session.subject.pool node → Deleted session.subject.pool node →
    PassesDown session.subject node
  /-- also where the removal of the smallest entry completes what it committed. -/
  extractMin : Ends (onLevels walkBound fun helping _ => commitMin helping) session.subject
    fun found after => ∀ first, found = some first → PassesDown after first
  /-- A removal that is completed leaves its node on no level, -/
  completed : ∀ name handle, session.handles.find? name = some handle → handle.owner = true →
    Ends (take (.complete name)) session fun answer after =>
      (∃ payload, answer = .payload payload) ∧
        ∀ level, ¬ after.subject.pool.Met level handle.node
  /-- and the removal of the smallest entry leaves the node of that entry on none. -/
  extracted : Ends (take .extractMin) session fun answer after => ∀ key payload,
    answer = .entry (some (key, payload)) → ∃ first, Live session.subject.pool first ∧
      keyOf session.subject.pool first = key ∧ ∀ level, ¬ after.subject.pool.Met level first

/-- In every session of a legal run committed nodes come off the levels that they are taken off. -/
theorem unlinks {options : Options} {history : History} {session : Session PriorityQueue Handle}
    (reached : Reached options history session) : Unlinks session := by
  obtain ⟨line, free, inOrder⟩ := reached.inOrder
  have member : ∀ node, Inserted session.subject.pool node → node ∈ line :=
    fun node => (inOrder.consistent.inserted_iff node).mp
  exact {
    bypass := fun node inserted dead _ low start starts =>
      inOrder.bypass_off (member node inserted) dead low
        (starts.imp_right fun inner => ⟨member start inner.1, inner.2⟩)
    help := fun node inserted dead _ low => inOrder.help_off (member node inserted) dead low
    complete := fun node inserted dead =>
      inOrder.consistent.passesDown inOrder.maxHeight (member node inserted) dead
    extractMin := inOrder.commitMin_passesDown
    completed := fun _ _ found owner => inOrder.complete_off found owner
    extracted := inOrder.extractMin_off }

/-- A node that is half removed comes off its levels, with a newer node of its key in front. -/
theorem unlinks_halfRemoved : ∃ history session handle,
    followFromStart smallOptions halfRemoved = some (history, session) ∧
      HalfDone history session handle ∧ Unlinks session := by
  obtain ⟨history, session, handle, followed, halfDone⟩ := exists_halfRemoved
  exact ⟨history, session, handle, followed, halfDone, unlinks (Reached.of_steps followed)⟩

end PriorityQueue

end PooledContainers
