/-
The steps that concern the handles of a session: holding a node under a name and giving it up,
committing a deletion, giving a hint, and completing a removal that is owned.
-/

import PooledContainers.Proofs.PriorityQueue.Stages

namespace PooledContainers

namespace PriorityQueue

open Line Operation Pool Session

variable {options : Options} {history : History} {session : Session PriorityQueue Handle}
  {line free : List Nat}

/-- What is held is read off counters, sizes and bodies alone. -/
theorem contents_eq_of_readings {queue changed : PriorityQueue}
    (size : changed.pool.size = queue.pool.size)
    (parity : ∀ slot, changed.pool.counterOf slot % 2 = queue.pool.counterOf slot % 2)
    (body : ∀ slot, changed.pool.bodyOf slot = queue.pool.bodyOf slot) :
    contents changed = contents queue := by
  have live : liveSlots changed.pool = liveSlots queue.pool := by
    unfold liveSlots
    rw [size]
    refine List.filter_congr fun slot _ => decide_eq_decide.mpr ?_
    unfold Live Inserted Deleted
    rw [size, parity, body]
  funext key
  unfold contents
  rw [live]
  unfold keyOf
  simp only [body]

/-- So is what is remembered of deleted nodes. -/
theorem Remembers.of_readings {pool after : Pool maxLevels Entry} (size : after.size = pool.size)
    (parity : ∀ slot, after.counterOf slot % 2 = pool.counterOf slot % 2)
    (body : ∀ slot, after.bodyOf slot = pool.bodyOf slot) : Remembers pool after :=
  fun slot inserted _ => ⟨⟨inserted.1, size ▸ inserted.2.1, (parity slot).symm.trans inserted.2.2⟩,
    entryOf_congr (body slot)⟩

namespace InOrder

/-! ### Holding and giving up -/

/-- A count of a handle is given up, and the handle is gone. -/
theorem giveUp_ends (inOrder : InOrder options history session line free)
    {handles : HandleTable Handle} {pool : Pool maxLevels Entry} {node : Nat}
    (consistent : Consistent options.height line free [] history.pending
      (addCount (handlesOn handles) node) pool)
    (handled : Handled handles history.pending pool) (size : pool.size = session.subject.pool.size)
    (body : ∀ slot, pool.bodyOf slot = session.subject.pool.bodyOf slot)
    (inside : node < pool.size) :
    Ends (Pool.release node) pool fun _ later =>
      Quiet options history session .done ⟨{ session.subject with pool := later }, handles⟩ := by
  refine (consistent.release_ends inside).imp fun _ later thinned => ?_
  obtain ⟨freed, thinned⟩ := thinned
  have laterBody : ∀ slot, later.bodyOf slot = session.subject.pool.bodyOf slot :=
    fun slot => (thinned.body slot).trans (body slot)
  have laterHandled : Handled handles history.pending later :=
    handled.mono thinned.size fun slot _ dead isPending =>
      ⟨(deleted_congr (thinned.body slot)).mpr dead, isPending⟩
  obtain ⟨stays, same, remembers⟩ := inOrder.unaltered ⟨{ session.subject with pool := later },
    handles⟩ thinned.consistent laterHandled
    ⟨rfl, rfl, thinned.size.trans size, (Int.add_zero _).symm⟩ laterBody fun slot member inFreed =>
      inOrder.deleted_of_not_pending member (thinned.finished slot inFreed)
  exact ⟨⟨_, _, stays⟩, same, remembers, nofun⟩

theorem release_ends (inOrder : InOrder options history session line free) (name : String) :
    Ends (take (.release name)) session (Quiet options history session) := by
  refine withHandle_ends (fun _ => inOrder.quiet _) fun handle found => ?_
  refine Ends.bind (forget_ends (Ends.bind (act_ends (onNodes_ends ?_))))
  exact (inOrder.giveUp_ends (inOrder.consistent.congr fun slot =>
    (handlesOn_of_find? found slot).symm) (inOrder.handled.erase name) rfl (fun _ => rfl)
    (inOrder.handle_inside found)).imp fun _ later quiet => Ends.pure quiet

/-- A walk to what is to be held. -/
theorem holdTarget_ends (inOrder : InOrder options history session line free) (target : Target) :
    Ends (holdTarget (helpingFor options.height session.subject.pool.size) options.height target)
      session.subject.pool fun node pool =>
        inOrder.consistent.ground.Holds [node] pool ∧ node ∈ spine line := by
  cases target with
  | head =>
    exact Ends.bind (inOrder.consistent.holds.retain_ends (head_mem_spine _)
      fun retained => Ends.pure ⟨retained, head_mem_spine line⟩)
  | firstFrom key =>
    have covers : inOrder.consistent.ground.Covers line.length key := fun slot member _ =>
      rank_le_length inOrder.consistent.roster.distinct (List.mem_cons_of_mem _ member)
    refine (Helping.firstFrom_ends inOrder.consistent.sound inOrder.consistent.holds (by
      show line.length < line.length + 2
      omega) covers).imp fun node pool found => ?_
    obtain ⟨holds, -, prev, -, adjacent, -⟩ := found
    exact ⟨holds, adjacent.mem_spine⟩

theorem isDeleted_ends {pool : Pool maxLevels Entry} {slot : Nat}
    {condition : Bool → Pool maxLevels Entry → Prop} (inside : slot < pool.size)
    (holds : condition (pool.bodyOf slot).datum.isDeleted pool) :
    Ends (isDeleted slot) pool condition :=
  Ends.bind (bodyAt_ends inside (Ends.pure holds))

theorem takeHold_ends (inOrder : InOrder options history session line free) (name : String)
    (target : Target) :
    Ends (takeHold walkBound name target) session (Quiet options history session) := by
  unfold takeHold
  refine Ends.bind (act_ends (onLevels_ends inOrder.maxHeight
    ((inOrder.holdTarget_ends target).imp fun node pool held => ?_)))
  obtain ⟨holds, member⟩ := held
  have inside := holds.inside member
  refine Ends.bind (act_ends (onNodes_ends (nameOf_ends inside ?_)))
  refine Ends.bind (act_ends (onNodes_ends (isDeleted_ends inside ?_)))
  have members : ∀ slot ∈ [node], slot ∈ spine line := fun slot inList =>
    List.mem_singleton.mp inList ▸ member
  have counted : ∀ slot, addCount (handlesOn session.handles) node slot =
      handlesOn session.handles slot + [node].count slot :=
    fun slot => congrFun (addCount_singleton _ node) slot
  have handled := inOrder.handled_of_holds holds
  refine Ends.bind (keep_ends (fun absent => Ends.pure ?_) fun old found => onNodes_ends ?_)
  · obtain ⟨stays, same, remembers⟩ := inOrder.of_holds (session.handles.put name ⟨node, false⟩)
      holds members (fun slot => (handlesOn_put_of_none absent _ slot).trans (counted slot))
      (handled.put name inside rfl)
    exact ⟨⟨line, free, stays⟩, same, remembers, nofun⟩
  · have weighed : ∀ slot, addCount (handlesOn (session.handles.put name ⟨node, false⟩)) old.node
        slot = handlesOn session.handles slot + [node].count slot := fun slot =>
      (handlesOn_put_of_find? found _ slot).trans (counted slot)
    have walked := (inOrder.consistent.walked holds members).congr weighed
    exact (inOrder.giveUp_ends walked (handled.put name inside rfl) holds.size holds.tidied.body
      (by rw [holds.size]; exact inOrder.handle_inside found)).imp fun _ later quiet =>
        Ends.pure ⟨quiet.inOrder, quiet.same, quiet.remembers, nofun⟩

theorem takeInspect_ends (inOrder : InOrder options history session line free) {name : String}
    {handle : Handle} (found : session.handles.find? name = some handle) :
    Ends (takeInspect handle) session fun _ after => after = session := by
  have inside := inOrder.handle_inside found
  unfold takeInspect
  refine Ends.bind (act_ends (onNodes_ends (nameOf_ends inside ?_)))
  exact Ends.bind (act_ends (onNodes_ends (bodyAt_ends inside (Ends.pure rfl))))

/-! ### Committing a deletion -/

theorem mem_line_of_not_sentinel (inOrder : InOrder options history session line free)
    {name : String} {handle : Handle} (found : session.handles.find? name = some handle)
    (inner : isSentinel handle.node = false) : handle.node ∈ line :=
  Line.mem_of_mem_spine (inOrder.handle_mem_spine found) inner

/-- A live node is pending. -/
theorem pending_of_live (inOrder : InOrder options history session line free) {slot : Nat}
    (live : Live session.subject.pool slot) : history.pending slot = true := by
  obtain ⟨member, alive⟩ := (inOrder.consistent.live_iff slot).mp live
  by_contra notPending
  exact alive (inOrder.deleted_of_not_pending member (Bool.eq_false_iff.mpr notPending))

/-- A live node was committed through a handle, which owns the removal from now on. -/
theorem committed (inOrder : InOrder options history session line free) {name : String}
    {handle : Handle} (found : session.handles.find? name = some handle)
    (live : Live session.subject.pool handle.node) :
    (∃ line free, InOrder options history
      ⟨{ session.subject with
          pool := PriorityQueue.committed session.subject.pool handle.node
          balance := session.subject.balance + -1 },
        session.handles.put name { handle with owner := true }⟩ line free) ∧
    contents { session.subject with
        pool := PriorityQueue.committed session.subject.pool handle.node
        balance := session.subject.balance + -1 } =
      Function.update (contents session.subject)
        (keyOf session.subject.pool handle.node) none ∧
    Remembers session.subject.pool
      (PriorityQueue.committed session.subject.pool handle.node) := by
  obtain ⟨member, alive⟩ := (inOrder.consistent.live_iff handle.node).mp live
  have inside := inOrder.consistent.inside member
  have size : (PriorityQueue.committed session.subject.pool handle.node).size =
      session.subject.pool.size := size_withBody _ _
  have dead := deleted_committed_iff inside
  have whole : without line [] = line := by simp [without]
  have owned : Handled session.handles history.pending _ :=
    inOrder.handled.mono size fun slot _ wasDead isPending =>
      ⟨(dead slot).mpr (Or.inr wasDead), isPending⟩
  have handled := owned.own name { handle with owner := true }
    (by rw [size]; exact inside) rfl (fun inOwned => alive (inOrder.handled.owned _ inOwned).1)
    ⟨(dead _).mpr (Or.inl rfl), inOrder.pending_of_live live⟩
  have counted : ∀ slot, handlesOn (session.handles.put name { handle with owner := true }) slot =
      handlesOn session.handles slot := fun slot =>
    (handlesOn_put _ _ _ slot).trans (handlesOn_of_find? found slot).symm
  have consistent := (inOrder.consistent.committed member).congr counted
  rw [← whole] at consistent
  obtain ⟨stays, erased, remembers⟩ := inOrder.erased ⟨{ session.subject with
      pool := PriorityQueue.committed session.subject.pool handle.node
      balance := session.subject.balance + -1 },
    session.handles.put name { handle with owner := true }⟩ live consistent handled
    ⟨rfl, rfl, size, rfl⟩ (fun _ => rfl) fun slot _ inNone => absurd inNone (by simp)
  exact ⟨⟨_, _, stays⟩, erased, remembers⟩

theorem takeCommit_ends (inOrder : InOrder options history session line free) {name : String}
    {handle : Handle} (found : session.handles.find? name = some handle) :
    Ends (takeCommit name handle) session fun answer after =>
      (∃ line free, InOrder options history after line free) ∧
        CommitMeans session answer after handle ∧
        Remembers session.subject.pool after.subject.pool ∧
        ∀ reason, answer = .refused reason → after = session := by
  unfold takeCommit
  cases sentinel : isSentinel handle.node with
  | true =>
    rw [if_pos rfl]
    refine Ends.pure ⟨⟨line, free, inOrder⟩, ⟨fun _ => ⟨rfl, rfl⟩, fun live => ?_, fun inner => ?_⟩,
      Remembers.refl _, fun _ _ => rfl⟩
    · exact absurd (sentinel.symm.trans live.1.1) (by simp)
    · exact absurd (sentinel.symm.trans inner) (by simp)
  | false =>
    rw [if_neg Bool.false_ne_true]
    have member := inOrder.mem_line_of_not_sentinel found sentinel
    have inside := inOrder.consistent.inside member
    have liveIff := inOrder.consistent.live_iff handle.node
    by_cases dead : Deleted session.subject.pool handle.node
    · refine Ends.bind (act_ends (onNodes_ends (commit_ends_of_deleted inside dead ?_)))
      rw [if_neg Bool.false_ne_true]
      refine Ends.pure ⟨⟨line, free, inOrder⟩, ⟨fun isSentinel => ?_, fun live => ?_,
        fun _ _ => ⟨rfl, rfl⟩⟩, Remembers.refl _, nofun⟩
      · exact absurd (sentinel.symm.trans isSentinel) (by simp)
      · exact absurd dead live.2
    · have live := liveIff.mpr ⟨member, dead⟩
      obtain ⟨stays, erased, remembers⟩ := inOrder.committed found live
      refine Ends.bind (act_ends (onNodes_ends (commit_ends inside dead ?_)))
      rw [if_pos rfl]
      refine Ends.bind (act_ends (Ends.updating (Ends.bind (put_ends (Ends.pure ?_)))))
      refine ⟨stays, ⟨fun isSentinel => ?_, fun _ => ⟨rfl, contents_of_live inOrder.consistent live,
        erased⟩, fun _ wasDead => absurd wasDead dead⟩, remembers, nofun⟩
      exact absurd (sentinel.symm.trans isSentinel) (by simp)

/-! ### Giving a hint -/

/-- A hint is given to a node that has no reference back, and not to any other. -/
theorem giveHint_ends {pool : Pool maxLevels Entry} {node predecessor : Nat}
    {condition : Bool → Pool maxLevels Entry → Prop} (inside : node < pool.size)
    (predecessorInside : predecessor < pool.size) (there : (pool.backOf node).isSome = true)
    (given : pool.back? node = none →
      condition true ((pool.retained predecessor).withBack node (Link.ofSlot predecessor)))
    (kept : condition false pool) : Ends (giveHint node predecessor) pool condition := by
  obtain ⟨link, found⟩ := Option.isSome_iff_exists.mp there
  unfold giveHint
  refine Ends.bind (backAt_ends found inside ?_)
  cases nil : link.isNil with
  | false =>
    rw [if_neg Bool.false_ne_true]
    exact Ends.pure kept
  | true =>
    rw [if_pos rfl]
    refine Ends.bind (retain_ends predecessorInside ?_)
    refine Ends.bind (linkTo_ends (by rwa [size_recount]) ?_)
    refine Ends.bind (setBack_ends (by rwa [size_recount]) (Ends.pure (given ?_)))
    unfold Pool.back?
    rw [found, Option.bind_some]
    exact Option.isNone_iff_eq_none.mp nil

/-- A hint that leads towards the head keeps the session in order. -/
theorem hinted (inOrder : InOrder options history session line free) {handle other : Handle}
    {name : String} (foundOther : session.handles.find? name = some other)
    (member : handle.node ∈ line) (dead : Deleted session.subject.pool handle.node)
    (nowhere : session.subject.pool.back? handle.node = none) (inner : other.node ≠ tailSlot)
    (towards : other.node = headSlot ∨
      keyOf session.subject.pool other.node < keyOf session.subject.pool handle.node) :
    InOrder options history { session with subject := { session.subject with
      pool := (session.subject.pool.retained other.node).withBack handle.node
        (Link.ofSlot other.node) } } line free := by
  have otherInside := inOrder.handle_inside foundOther
  have otherMember := inOrder.handle_mem_spine foundOther
  have inside : handle.node < (session.subject.pool.retained other.node).size := by
    rw [size_recount]
    exact inOrder.consistent.inside member
  have smaller : other.node = headSlot ∨ other.node ∈ line ∧
      keyOf (session.subject.pool.retained other.node) other.node <
        keyOf (session.subject.pool.retained other.node) handle.node := by
    unfold keyOf
    rw [bodyOf_recount, bodyOf_recount]
    rcases List.mem_cons.mp (Line.mem_cons_of_mem_spine otherMember inner) with isHead | inLine
    · exact Or.inl isHead
    · exact towards.imp_right fun less => ⟨inLine, less⟩
  have retained := inOrder.consistent.retained otherInside
    (inOrder.consistent.occupied other.node otherMember)
  have consistent := retained.withBack member (by
      unfold Deleted
      rw [bodyOf_recount]
      exact dead) (by
      rw [back?_recount]
      exact nowhere) smaller
  have body : ∀ slot, ((session.subject.pool.retained other.node).withBack handle.node
      (Link.ofSlot other.node)).bodyOf slot = session.subject.pool.bodyOf slot := fun slot => by
    rw [bodyOf_withBack inside, bodyOf_recount]
  have size : ((session.subject.pool.retained other.node).withBack handle.node
      (Link.ofSlot other.node)).size = session.subject.pool.size := by
    rw [size_withBack, size_recount]
  have whole : without line [] = line := by simp [without]
  rw [← whole] at consistent
  have stays := (inOrder.unaltered { session with subject := { session.subject with
      pool := (session.subject.pool.retained other.node).withBack handle.node
        (Link.ofSlot other.node) } } consistent
    (inOrder.handled.mono size fun slot _ wasDead isPending =>
      ⟨(deleted_congr (body slot)).mpr wasDead, isPending⟩)
    ⟨rfl, rfl, size, (Int.add_zero _).symm⟩ body fun slot _ inNone => absurd inNone (by simp)).1
  rwa [whole] at stays

theorem takeHint_ends (inOrder : InOrder options history session line free)
    {name predecessor : String} {handle other : Handle}
    (found : session.handles.find? name = some handle)
    (foundOther : session.handles.find? predecessor = some other) :
    Ends (takeHint handle other) session fun answer after =>
      ((answer = .flag true → leadsBack session (.hint name predecessor) = true) →
        ∃ line free, InOrder options history after line free) ∧
        contents after.subject = contents session.subject ∧
        Remembers session.subject.pool after.subject.pool ∧
        ∀ reason, answer = .refused reason → after = session := by
  have inside := inOrder.handle_inside found
  have otherInside := inOrder.handle_inside foundOther
  unfold takeHint
  cases refused : isSentinel handle.node || other.node == tailSlot with
  | true =>
    rw [if_pos rfl]
    exact Ends.pure ⟨fun _ => ⟨line, free, inOrder⟩, rfl, Remembers.refl _, fun _ _ => rfl⟩
  | false =>
    rw [if_neg Bool.false_ne_true]
    obtain ⟨notSentinel, notTail⟩ := Bool.or_eq_false_iff.mp refused
    have member := inOrder.mem_line_of_not_sentinel found notSentinel
    have retainedInside : handle.node < (session.subject.pool.retained other.node).size := by
      rwa [size_recount]
    have size : ((session.subject.pool.retained other.node).withBack handle.node
        (Link.ofSlot other.node)).size = session.subject.pool.size := by
      rw [size_withBack, size_recount]
    have parity : ∀ slot, ((session.subject.pool.retained other.node).withBack handle.node
        (Link.ofSlot other.node)).counterOf slot % 2 =
          session.subject.pool.counterOf slot % 2 := fun slot => by
      rw [counterOf_withBack retainedInside, counterOf_recount _ _ otherInside]
      split
      next same => rw [same]; omega
      next => rfl
    have body : ∀ slot, ((session.subject.pool.retained other.node).withBack handle.node
        (Link.ofSlot other.node)).bodyOf slot = session.subject.pool.bodyOf slot := fun slot => by
      rw [bodyOf_withBack retainedInside, bodyOf_recount]
    refine Ends.bind (act_ends (onNodes_ends (isDeleted_ends inside ?_)))
    by_cases dead : Deleted session.subject.pool handle.node
    · rw [if_pos (show (session.subject.pool.bodyOf handle.node).datum.isDeleted = true from dead)]
      refine Ends.bind (act_ends (onNodes_ends (giveHint_ends inside otherInside
        (inOrder.consistent.roster.backThere _ inside)
        (fun nowhere => Ends.pure ⟨fun legal => ?_, contents_eq_of_readings size parity body,
          Remembers.of_readings size parity body, nofun⟩)
        (Ends.pure ⟨fun _ => ⟨line, free, inOrder⟩, rfl, Remembers.refl _, nofun⟩))))
      have towards := (leadsBack_hint found foundOther).mp (legal rfl)
      exact ⟨line, free, inOrder.hinted foundOther member dead nowhere
        (beq_eq_false_iff_ne.mp notTail) towards⟩
    · rw [if_neg
        (show ¬ (session.subject.pool.bodyOf handle.node).datum.isDeleted = true from dead)]
      exact Ends.pure ⟨fun _ => ⟨line, free, inOrder⟩, rfl, Remembers.refl _, fun _ _ => rfl⟩

/-! ### Completing a removal -/

theorem next_complete {name : String} {handle : Handle}
    (found : session.handles.find? name = some handle) (payload : UInt64) :
    history.next session (.complete name) (.payload payload) = history.finished handle.node := by
  simp only [History.next, found]

theorem takeComplete_ends (inOrder : InOrder options history session line free) {name : String}
    {handle : Handle} (found : session.handles.find? name = some handle) :
    Ends (takeComplete walkBound name handle) session fun answer after =>
      (∃ line free, InOrder options (history.next session (.complete name) answer) after line
        free) ∧ CompleteMeans session answer after handle ∧
        Remembers session.subject.pool after.subject.pool ∧
        ∀ reason, answer = .refused reason → after = session := by
  have inside := inOrder.handle_inside found
  unfold takeComplete
  cases isOwner : handle.owner with
  | false =>
    rw [if_neg Bool.false_ne_true]
    exact Ends.pure ⟨⟨line, free, inOrder⟩, ⟨rfl, fun owner => absurd (isOwner.symm.trans owner)
      (by simp), fun _ => ⟨rfl, rfl⟩⟩, Remembers.refl _, fun _ _ => rfl⟩
  | true =>
    rw [if_pos rfl]
    obtain ⟨dead, isPending⟩ := inOrder.handled.owned handle.node
      (HandleTable.mem_owned found isOwner)
    have counted := inOrder.consistent.congr fun slot => (handlesOn_of_find? found slot).symm
    refine Ends.bind (act_ends (onNodes_ends (bodyAt_ends inside ?_)))
    refine Ends.bind (forget_ends (Ends.bind (act_ends (onLevels_ends inOrder.maxHeight
      ((counted.completeRemoval_ends isPending dead).imp fun _ pool thinned => Ends.pure ?_)))))
    obtain ⟨freed, thinned⟩ := thinned
    have handled := (inOrder.handled.finish found isOwner).mono thinned.size
      fun slot _ wasDead still => ⟨(deleted_congr (thinned.body slot)).mpr wasDead, still⟩
    obtain ⟨stays, same, remembers⟩ := inOrder.unaltered ⟨{ session.subject with pool },
        session.handles.erase name⟩ thinned.consistent handled
      ⟨rfl, rfl, thinned.size, (Int.add_zero _).symm⟩ thinned.body fun slot member inFreed => by
        by_cases isNode : slot = handle.node
        · exact isNode ▸ dead
        · refine inOrder.deleted_of_not_pending member ?_
          have none := thinned.finished slot inFreed
          unfold finish at none
          rwa [decide_eq_true isNode, Bool.and_true] at none
    rw [next_complete found]
    exact ⟨⟨_, _, stays⟩, ⟨same, fun _ => rfl, fun notOwner => absurd (isOwner.symm.trans notOwner)
      (by simp)⟩, remembers, nofun⟩

end InOrder

end PriorityQueue

end PooledContainers
