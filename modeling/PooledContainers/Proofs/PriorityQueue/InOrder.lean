/-
What holds of a session with a queue at all times: its nodes are consistent with its handles and
its history, the length counts the live nodes, each owned removal is pending and owned once, and
among nodes with the same key the newer ones stand in front. A step changes the live nodes in one
of four ways, and each keeps all of this.
-/

import PooledContainers.Proofs.PriorityQueue.Contents
import PooledContainers.Proofs.PriorityQueue.Insert
import PooledContainers.Proofs.PriorityQueue.Removal

namespace PooledContainers

namespace PriorityQueue

open Line Pool

/-! ### Handles -/

section Handles

variable {handles : HandleTable Handle} {name : String} {handle : Handle}

theorem handlesOn_put (handles : HandleTable Handle) (name : String) (handle : Handle)
    (slot : Nat) : handlesOn (handles.put name handle) slot =
      addCount (handlesOn (handles.erase name)) handle.node slot := by
  unfold handlesOn addCount
  rw [HandleTable.total_put, Nat.add_comm]
  simp only [eq_comm]

theorem handlesOn_of_find? (found : handles.find? name = some handle) (slot : Nat) :
    handlesOn handles slot = addCount (handlesOn (handles.erase name)) handle.node slot := by
  unfold handlesOn addCount
  rw [HandleTable.total_of_find? _ found, Nat.add_comm]
  simp only [eq_comm]

theorem handlesOn_of_none (absent : handles.find? name = none) (slot : Nat) :
    handlesOn (handles.erase name) slot = handlesOn handles slot := by
  unfold handlesOn
  exact HandleTable.total_of_none _ absent

theorem handlesOn_put_of_none (absent : handles.find? name = none) (new : Handle) (slot : Nat) :
    handlesOn (handles.put name new) slot = addCount (handlesOn handles) new.node slot := by
  rw [handlesOn_put]
  unfold addCount
  rw [handlesOn_of_none absent]

/-- A handle that displaces another one takes its place in the count. -/
theorem handlesOn_put_of_find? (found : handles.find? name = some handle) (new : Handle)
    (slot : Nat) : addCount (handlesOn (handles.put name new)) handle.node slot =
      addCount (handlesOn handles) new.node slot := by
  have before := handlesOn_of_find? found slot
  have later := handlesOn_put handles name new slot
  unfold addCount at *
  omega

theorem handlesOn_pos (found : handles.find? name = some handle) :
    0 < handlesOn handles handle.node := by
  rw [handlesOn_of_find? found, addCount_self]
  exact Nat.succ_pos _

end Handles

/-- The handles are on nodes of the pool, and every removal that is owned is pending and owned by
one handle only. -/
abbrev Handled (handles : HandleTable Handle) (pending : Nat → Bool)
    (pool : Pool maxLevels Entry) : Prop :=
  handles.Kept Handle.owner Handle.node (fun handle => handle.node < pool.size) fun slot =>
    Deleted pool slot ∧ pending slot = true

namespace Handled

variable {handles : HandleTable Handle} {name : String} {handle : Handle}
  {pending later : Nat → Bool} {pool after : Pool maxLevels Entry}

/-- What is owned stays deleted and pending. -/
theorem mono (handled : Handled handles pending pool) (size : after.size = pool.size)
    (still : ∀ slot ∈ ownedNodes handles, Deleted pool slot → pending slot = true →
      Deleted after slot ∧ later slot = true) : Handled handles later after :=
  HandleTable.Kept.mono handled (fun _ _ inside => size.symm ▸ inside) fun slot member due =>
    still slot member due.1 due.2

/-- The removals that are left when a handle that owns one is used up. -/
theorem finish (handled : Handled handles pending pool) (found : handles.find? name = some handle)
    (isOwner : handle.owner = true) :
    Handled (handles.erase name) (PooledContainers.finish pending handle.node) pool := by
  refine HandleTable.Kept.finish handled found isOwner fun slot apart due => ⟨due.1, ?_⟩
  unfold PooledContainers.finish
  rw [due.2, Bool.true_and, decide_eq_true_eq]
  exact apart

end Handled

/-! ### The order of insertion -/

/-- The nodes of a line were inserted before a time, and of two with the same key the one in front
was inserted later. -/
structure Dated (clock : Nat) (birth : Nat → Nat) (line : List Nat) (pool : Pool maxLevels Entry) :
    Prop where
  past : ∀ slot ∈ line, birth slot < clock
  newer : ∀ front ∈ line, ∀ behind ∈ line, rank line front < rank line behind →
    keyOf pool front = keyOf pool behind → birth behind < birth front

namespace Dated

variable {clock : Nat} {birth : Nat → Nat} {line longer : List Nat}
  {pool after : Pool maxLevels Entry}

/-- A part of the line is dated as the line is. -/
theorem of_sublist (dated : Dated clock birth longer pool) (part : line.Sublist longer)
    (distinct : (spine longer).Nodup)
    (key : ∀ slot ∈ line, keyOf after slot = keyOf pool slot) : Dated clock birth line after where
  past slot member := dated.past slot (part.subset member)
  newer front frontMember behind behindMember before same := by
    rw [key front frontMember, key behind behindMember] at same
    exact dated.newer front (part.subset frontMember) behind (part.subset behindMember)
      ((rank_lt_rank_iff part distinct (mem_spine_of_mem frontMember)
        (mem_spine_of_mem behindMember)).mp before) same

/-- A new node stands in front of all others with its key. -/
theorem entered {node : Nat} (dated : Dated clock birth line pool) (new : node ∉ line)
    (distinct : (spine longer).Nodup) (part : line.Sublist longer)
    (members : ∀ slot, slot ∈ longer ↔ slot = node ∨ slot ∈ line)
    (key : ∀ slot ∈ line, keyOf after slot = keyOf pool slot)
    (order : ∀ slot ∈ line, rank longer slot < rank longer node →
      keyOf pool slot < keyOf after node) :
    Dated (clock + 1) (fun slot => if slot = node then clock else birth slot) longer after where
  past slot member := by
    show (if slot = node then clock else birth slot) < clock + 1
    by_cases isNode : slot = node
    · rw [if_pos isNode]
      exact Nat.lt_succ_self clock
    · rw [if_neg isNode]
      exact Nat.lt_succ_of_lt (dated.past slot (((members slot).mp member).resolve_left isNode))
  newer front frontMember behind behindMember before same := by
    show (if behind = node then clock else birth behind) <
      if front = node then clock else birth front
    rcases (members front).mp frontMember with rfl | frontOld
    · rcases (members behind).mp behindMember with rfl | behindOld
      · exact absurd before (Nat.lt_irrefl _)
      · rw [if_neg fun isNode : behind = front => new (isNode ▸ behindOld), if_pos rfl]
        exact dated.past behind behindOld
    · have frontApart : front ≠ node := fun isNode => new (isNode ▸ frontOld)
      rcases (members behind).mp behindMember with rfl | behindOld
      · have smaller := order front frontOld before
        rw [← key front frontOld, same] at smaller
        exact absurd smaller (UInt64.lt_irrefl _)
      · rw [if_neg fun isNode : behind = node => new (isNode ▸ behindOld), if_neg frontApart]
        rw [key front frontOld, key behind behindOld] at same
        exact dated.newer front frontOld behind behindOld
          ((rank_lt_rank_iff part distinct (mem_spine_of_mem frontOld)
            (mem_spine_of_mem behindOld)).mpr before) same

end Dated

/-! ### The invariant -/

/-- What holds of a session with a queue and its history, with the line and the free slots. -/
structure InOrder (options : Options) (history : History) (session : Session PriorityQueue Handle)
    (line free : List Nat) : Prop where
  consistent : Consistent options.height line free [] history.pending (handlesOn session.handles)
    session.subject.pool
  handled : Handled session.handles history.pending session.subject.pool
  dated : Dated history.clock history.birth line session.subject.pool
  maxHeight : session.subject.maxHeight = options.height
  capacity : session.subject.capacity = options.capacity
  size : session.subject.pool.size = options.capacity.toNat + sentinelCount
  balance : session.subject.balance = (liveSlots session.subject.pool).length

/-- The deleted nodes of a pool were in another one before, live or deleted, with the same keys and
payloads. -/
def Remembers (pool after : Pool maxLevels Entry) : Prop :=
  ∀ slot, Inserted after slot → Deleted after slot →
    Inserted pool slot ∧ entryOf after slot = entryOf pool slot

theorem Remembers.refl (pool : Pool maxLevels Entry) : Remembers pool pool :=
  fun _ inserted _ => ⟨inserted, rfl⟩

theorem Consistent.remembers {maxHeight : Nat} {line free laterLine laterFree : List Nat}
    {pending laterPending : Nat → Bool} {held laterHeld : Nat → Nat}
    {pool after : Pool maxLevels Entry}
    (before : Consistent maxHeight line free [] pending held pool)
    (later : Consistent maxHeight laterLine laterFree [] laterPending laterHeld after)
    (same : ∀ slot ∈ laterLine, Deleted after slot →
      slot ∈ line ∧ entryOf after slot = entryOf pool slot) : Remembers pool after := by
  intro slot inserted dead
  rw [before.inserted_iff]
  exact same slot ((later.inserted_iff slot).mp inserted) dead

/-- A queue with the nodes of another one changed, and its length by as many entries. -/
structure SameBut (change : Int) (queue changed : PriorityQueue) : Prop where
  maxHeight : changed.maxHeight = queue.maxHeight
  capacity : changed.capacity = queue.capacity
  size : changed.pool.size = queue.pool.size
  balance : changed.balance = queue.balance + change

namespace InOrder

variable {options : Options} {history : History} {session : Session PriorityQueue Handle}
  {line free freed laterFree : List Nat} {laterPending : Nat → Bool}

/-- A handle is on a sentinel or on a node of the line. -/
theorem handle_mem_spine (inOrder : InOrder options history session line free) {name : String}
    {handle : Handle} (found : session.handles.find? name = some handle) :
    handle.node ∈ spine line := by
  have inside := inOrder.handled.fits handle (HandleTable.mem_handles_of_find? found)
  rcases inOrder.consistent.covered handle.node inside with inSpine | isFresh | isFree
  · exact inSpine
  · exact absurd isFresh (by simp)
  · refine absurd isFree (inOrder.consistent.accounted.not_free_of_pos ?_)
    exact Nat.add_pos_left (handlesOn_pos found) _

/-- A handle is on a sentinel or on a node that was inserted. -/
theorem handle_inserted (inOrder : InOrder options history session line free) {name : String}
    {handle : Handle} (found : session.handles.find? name = some handle) :
    isSentinel handle.node = true ∨ Inserted session.subject.pool handle.node := by
  have member := inOrder.handle_mem_spine found
  rw [inOrder.consistent.inserted_iff]
  cases sentinel : isSentinel handle.node with
  | true => exact Or.inl rfl
  | false => exact Or.inr (mem_of_mem_spine member sentinel)

/-- Nodes that leave the line were deleted; nothing else changes for the queue. -/
theorem unaltered (inOrder : InOrder options history session line free)
    (after : Session PriorityQueue Handle)
    (consistent : Consistent options.height (without line freed) laterFree [] laterPending
      (handlesOn after.handles) after.subject.pool)
    (handled : Handled after.handles laterPending after.subject.pool)
    (same : SameBut 0 session.subject after.subject)
    (body : ∀ slot, after.subject.pool.bodyOf slot = session.subject.pool.bodyOf slot)
    (gone : ∀ slot ∈ line, slot ∈ freed → Deleted session.subject.pool slot) :
    InOrder options { history with pending := laterPending } after (without line freed) laterFree ∧
      contents after.subject = contents session.subject ∧
      Remembers session.subject.pool after.subject.pool := by
  have live : ∀ slot, Live after.subject.pool slot ↔ Live session.subject.pool slot := by
    intro slot
    rw [consistent.live_iff, inOrder.consistent.live_iff, mem_without, deleted_congr (body slot)]
    constructor
    · rintro ⟨⟨member, -⟩, alive⟩
      exact ⟨member, alive⟩
    · rintro ⟨member, alive⟩
      exact ⟨⟨member, fun inFreed => alive (gone slot member inFreed)⟩, alive⟩
  refine ⟨⟨consistent, handled, ?_, same.maxHeight.trans inOrder.maxHeight,
    same.capacity.trans inOrder.capacity, same.size.trans inOrder.size, ?_⟩,
    contents_congr inOrder.consistent consistent live fun slot _ => body slot,
    inOrder.consistent.remembers consistent fun slot member _ =>
      ⟨(mem_without.mp member).1, entryOf_congr (body slot)⟩⟩
  · exact inOrder.dated.of_sublist (without_sublist line freed) inOrder.consistent.roster.distinct
      fun slot _ => congrArg Entry.key (body slot)
  · rw [same.balance, inOrder.balance, length_liveSlots_congr live, Int.add_zero]

/-- The deletion of a live node was committed, which takes its key. -/
theorem erased (inOrder : InOrder options history session line free)
    (after : Session PriorityQueue Handle) {node : Nat}
    (nodeLive : Live session.subject.pool node)
    (consistent : Consistent options.height (without line freed) laterFree [] laterPending
      (handlesOn after.handles) after.subject.pool)
    (handled : Handled after.handles laterPending after.subject.pool)
    (same : SameBut (-1) session.subject after.subject)
    (body : ∀ slot,
      after.subject.pool.bodyOf slot = (committed session.subject.pool node).bodyOf slot)
    (gone : ∀ slot ∈ line, slot ∈ freed → slot = node ∨ Deleted session.subject.pool slot) :
    InOrder options { history with pending := laterPending } after (without line freed) laterFree ∧
      contents after.subject = Function.update (contents session.subject)
        (keyOf session.subject.pool node) none ∧
      Remembers session.subject.pool after.subject.pool := by
  have inside := nodeLive.1.2.1
  have key : ∀ slot, keyOf after.subject.pool slot = keyOf session.subject.pool slot := by
    intro slot
    unfold keyOf
    rw [body, bodyOf_committed inside]
    split
    next isNode => rw [isNode]
    next => rfl
  have live : ∀ slot, Live after.subject.pool slot ↔
      Live session.subject.pool slot ∧ slot ≠ node := by
    intro slot
    rw [consistent.live_iff, inOrder.consistent.live_iff, mem_without, deleted_congr (body slot),
      deleted_committed_iff inside, not_or]
    constructor
    · rintro ⟨⟨member, -⟩, apart, alive⟩
      exact ⟨⟨member, alive⟩, apart⟩
    · rintro ⟨⟨member, alive⟩, apart⟩
      exact ⟨⟨member, fun inFreed => (gone slot member inFreed).elim apart alive⟩, apart, alive⟩
  have counted : (liveSlots session.subject.pool).length =
      (liveSlots after.subject.pool).length + 1 := by
    refine length_liveSlots_succ node (fun still => ((live node).mp still).2 rfl)
      fun other => ?_
    rw [live other]
    by_cases isNode : other = node
    · subst isNode
      exact iff_of_true nodeLive (Or.inl rfl)
    · rw [or_iff_right isNode, and_iff_left isNode]
  refine ⟨⟨consistent, handled, ?_, same.maxHeight.trans inOrder.maxHeight,
    same.capacity.trans inOrder.capacity, same.size.trans inOrder.size, ?_⟩,
    contents_erase inOrder.consistent consistent nodeLive live fun slot _ apart => ?_,
    inOrder.consistent.remembers consistent fun slot member _ =>
      ⟨(mem_without.mp member).1, ?_⟩⟩
  · exact inOrder.dated.of_sublist (without_sublist line freed) inOrder.consistent.roster.distinct
      fun slot _ => key slot
  · rw [same.balance, inOrder.balance, counted]
    omega
  · rw [body, bodyOf_committed inside, if_neg apart]
  · refine Prod.ext (key slot) ?_
    show (after.subject.pool.bodyOf slot).datum.payload = _
    rw [body, bodyOf_committed inside]
    split
    next isNode =>
      rw [isNode]
      exact Datum.payload_delete _
    next => rfl

/-- The payload of a live node was replaced. -/
theorem replaced (inOrder : InOrder options history session line free)
    (after : Session PriorityQueue Handle) {node : Nat} {word : UInt64}
    (nodeLive : Live session.subject.pool node) (aligned : lowBit word = false)
    (consistent : Consistent options.height (without line freed) laterFree [] history.pending
      (handlesOn after.handles) after.subject.pool)
    (handled : Handled after.handles history.pending after.subject.pool)
    (same : SameBut 0 session.subject after.subject)
    (body : ∀ slot ∈ line, after.subject.pool.bodyOf slot =
      if slot = node then { session.subject.pool.bodyOf node with datum := ⟨word⟩ }
      else session.subject.pool.bodyOf slot)
    (gone : ∀ slot ∈ line, slot ∈ freed → Deleted session.subject.pool slot) :
    InOrder options history after (without line freed) laterFree ∧
      contents after.subject = Function.update (contents session.subject)
        (keyOf session.subject.pool node) (some (clearLowBit word)) ∧
      Remembers session.subject.pool after.subject.pool := by
  obtain ⟨nodeMember, nodeAlive⟩ := (inOrder.consistent.live_iff node).mp nodeLive
  have nodeBody : after.subject.pool.bodyOf node =
      { session.subject.pool.bodyOf node with datum := ⟨word⟩ } := by
    rw [body node nodeMember, if_pos rfl]
  have key : ∀ slot ∈ line, keyOf after.subject.pool slot = keyOf session.subject.pool slot := by
    intro slot member
    unfold keyOf
    rw [body slot member]
    split
    next isNode => rw [isNode]
    next => rfl
  have deleted : ∀ slot ∈ line,
      (Deleted after.subject.pool slot ↔ Deleted session.subject.pool slot) := by
    intro slot member
    by_cases isNode : slot = node
    · subst isNode
      refine iff_of_false ?_ nodeAlive
      unfold Deleted
      rw [nodeBody]
      exact Bool.eq_false_iff.mp aligned
    · refine deleted_congr ?_
      rw [body slot member, if_neg isNode]
  have live : ∀ slot, Live after.subject.pool slot ↔ Live session.subject.pool slot := by
    intro slot
    rw [consistent.live_iff, inOrder.consistent.live_iff, mem_without]
    constructor
    · rintro ⟨⟨member, -⟩, alive⟩
      exact ⟨member, (deleted slot member).not.mp alive⟩
    · rintro ⟨member, alive⟩
      exact ⟨⟨member, fun inFreed => alive (gone slot member inFreed)⟩,
        (deleted slot member).not.mpr alive⟩
  refine ⟨⟨consistent, handled, ?_, same.maxHeight.trans inOrder.maxHeight,
    same.capacity.trans inOrder.capacity, same.size.trans inOrder.size, ?_⟩, ?_,
    inOrder.consistent.remembers consistent fun slot member dead => ?_⟩
  · exact inOrder.dated.of_sublist (without_sublist line freed) inOrder.consistent.roster.distinct
      fun slot member => key slot ((without_sublist line freed).subset member)
  · rw [same.balance, inOrder.balance, length_liveSlots_congr live, Int.add_zero]
  · have set := contents_set inOrder.consistent consistent ((live node).mpr nodeLive)
      (fun slot _ => live slot) (fun slot slotLive apart => ?_) fun _ => (key node nodeMember).symm
    · rw [set, key node nodeMember, nodeBody]
      rfl
    · rw [body slot ((inOrder.consistent.live_iff slot).mp slotLive).1, if_neg apart]
  · have inLine := (mem_without.mp member).1
    refine ⟨inLine, entryOf_congr ?_⟩
    rw [body slot inLine, if_neg]
    rintro rfl
    exact nodeAlive ((deleted slot inLine).mp dead)

/-- A new node was linked. -/
theorem inserted (inOrder : InOrder options history session line free)
    (after : Session PriorityQueue Handle) {longer : List Nat}
    {node height : Nat} {key word : UInt64} (new : node ∉ spine line)
    (aligned : lowBit word = false) (longerDistinct : (spine longer).Nodup)
    (part : line.Sublist longer) (members : ∀ slot, slot ∈ longer ↔ slot = node ∨ slot ∈ line)
    (order : ∀ slot ∈ line, rank longer slot < rank longer node →
      keyOf session.subject.pool slot < key)
    (consistent : Consistent options.height (without longer freed) laterFree []
      (await history.pending node) (handlesOn after.handles) after.subject.pool)
    (handled : Handled after.handles (await history.pending node) after.subject.pool)
    (same : SameBut 1 session.subject after.subject)
    (body : ∀ slot ∈ line, after.subject.pool.bodyOf slot = session.subject.pool.bodyOf slot)
    (nodeBody : after.subject.pool.bodyOf node = ⟨key, ⟨word⟩, height, height⟩)
    (gone : ∀ slot ∈ line, slot ∈ freed → Deleted session.subject.pool slot)
    (stays : node ∉ freed) :
    InOrder options (history.inserted node) after (without longer freed) laterFree ∧
      contents after.subject =
        Function.update (contents session.subject) key (some (clearLowBit word)) ∧
      Remembers session.subject.pool after.subject.pool := by
  have nodeNew : node ∉ line := fun member => new (mem_spine_of_mem member)
  have nodeKey : keyOf after.subject.pool node = key := by
    unfold keyOf
    rw [nodeBody]
  have nodeAlive : ¬ Deleted after.subject.pool node := by
    unfold Deleted
    rw [nodeBody]
    exact Bool.eq_false_iff.mp aligned
  have wasNotLive : ¬ Live session.subject.pool node := fun live =>
    nodeNew ((inOrder.consistent.live_iff node).mp live).1
  have live : ∀ slot, Live after.subject.pool slot ↔
      slot = node ∨ Live session.subject.pool slot := by
    intro slot
    rw [consistent.live_iff, inOrder.consistent.live_iff, mem_without, members]
    constructor
    · rintro ⟨⟨rfl | member, -⟩, alive⟩
      · exact Or.inl rfl
      · exact Or.inr ⟨member, (deleted_congr (body slot member)).not.mp alive⟩
    · rintro (rfl | ⟨member, alive⟩)
      · exact ⟨⟨Or.inl rfl, stays⟩, nodeAlive⟩
      · exact ⟨⟨Or.inr member, fun inFreed => alive (gone slot member inFreed)⟩,
          (deleted_congr (body slot member)).not.mpr alive⟩
  refine ⟨⟨consistent, handled, ?_, same.maxHeight.trans inOrder.maxHeight,
    same.capacity.trans inOrder.capacity, same.size.trans inOrder.size, ?_⟩, ?_,
    inOrder.consistent.remembers consistent fun slot member dead => ?_⟩
  · exact (inOrder.dated.entered nodeNew longerDistinct part members
      (fun slot member => congrArg Entry.key (body slot member)) fun slot member before => by
        rw [nodeKey]
        exact order slot member before).of_sublist (without_sublist longer freed) longerDistinct
          fun _ _ => rfl
  · rw [same.balance, inOrder.balance, length_liveSlots_succ node wasNotLive live]
    omega
  · have set := contents_set inOrder.consistent consistent ((live node).mpr (Or.inl rfl))
      (fun slot apart => (live slot).trans (or_iff_right apart)) (fun slot slotLive apart => ?_)
      fun still => absurd still wasNotLive
    · rw [set, nodeKey, nodeBody]
      rfl
    · exact body slot ((inOrder.consistent.live_iff slot).mp slotLive).1
  · have inLine := ((members slot).mp (mem_without.mp member).1).resolve_left
      fun isNode => nodeAlive (isNode ▸ dead)
    exact ⟨inLine, entryOf_congr (body slot inLine)⟩

end InOrder

end PriorityQueue

end PooledContainers
