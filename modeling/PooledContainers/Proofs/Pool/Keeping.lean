/-
What the steps of a pool's user do to its books. Giving a count from one owner to another changes
the books of nobody else; a count that is taken is taken on whatever slot was named, free or not;
and only allocation and release change the free list.
-/

import PooledContainers.Proofs.Pool.History
import PooledContainers.Proofs.Pool.Reserve

namespace PooledContainers

namespace Pool

open Operation Session

variable {levels : Nat} {Body : Type} [Inhabited Body]

/-! ### The counts that the pool does not know of -/

/-- The counts that are held outside the pool. -/
def outside (detached : Nat → Nat) (handles : HandleTable Nat) (slot : Nat) : Nat :=
  handlesOn handles slot + detached slot

section Outside

variable {detached : Nat → Nat} {handles : HandleTable Nat} {name : String} {slot : Nat}

/-- A handle is one of the counts held outside. -/
theorem outside_of_find? (found : handles.find? name = some slot) :
    outside detached handles = addCount (outside detached (handles.erase name)) slot := by
  funext other
  simp only [outside, addCount, handlesOn]
  rw [HandleTable.total_of_find? _ found]
  simp only [eq_comm (a := slot)]
  omega

/-- A handle may be given up while its count stays. -/
theorem outside_detach (found : handles.find? name = some slot) :
    outside (addCount detached slot) (handles.erase name) = outside detached handles := by
  rw [outside_of_find? found]
  funext other
  simp only [outside, addCount]
  omega

/-- A handle that is put under a name is one count more; one that it displaces leaves its count. -/
theorem outside_put (detached : Nat → Nat) (handles : HandleTable Nat) (name : String)
    (slot : Nat) :
    outside (displacing detached handles name) (handles.put name slot) =
      addCount (outside detached handles) slot := by
  have erased : outside (displacing detached handles name) (handles.erase name) =
      outside detached handles := by
    unfold displacing
    cases found : handles.find? name with
    | none =>
      funext other
      unfold outside handlesOn
      rw [HandleTable.total_of_none _ found]
      rfl
    | some old => exact outside_detach found
  rw [← erased]
  funext other
  unfold outside addCount handlesOn
  rw [HandleTable.total_put]
  simp only [eq_comm (a := slot)]
  omega

/-- A detached count is one of the counts held outside. -/
theorem outside_drop (handles : HandleTable Nat) (there : 0 < detached slot) :
    addCount (outside (dropCount detached slot) handles) slot = outside detached handles := by
  funext other
  simp only [outside, addCount, dropCount]
  by_cases same : other = slot
  · subst same
    rw [if_pos rfl]
    omega
  · rw [if_neg same]
    omega

end Outside

/-! ### Books that are kept -/

/-- The books of a pool agree with the handles of a session and with the detached counts, all of
which are on slots of the pool. -/
structure Kept (detached : Nat → Nat) (free : List Nat)
    (session : Session (Workbench levels Body) Nat) : Prop where
  balanced : Balanced free (outside detached session.handles) session.subject.pool
  inside : ∀ slot, 0 < outside detached session.handles slot → slot < session.subject.pool.size

/-- How a step changes the free list. Allocation takes the first slot off it, and fails if there is
none. A release puts those slots onto it on which there is no count any more, unless they are on it
already. No other step changes it. -/
def Moves (size : Nat) (free later : List Nat) (counts : Nat → Nat) (answer : Answer) :
    Step → Prop
  | .allocate _ =>
    (free = [] ∧ later = [] ∧ answer = .allocation (.error (.exhausted size))) ∨
      ∃ slot, free = slot :: later ∧ answer = .allocation (.ok slot)
  | .release _ => ∃ freed, later = freed ++ free ∧
      ∀ slot, slot ∈ freed ↔ slot < size ∧ slot ∉ free ∧ counts slot = 0
  | _ => later = free

section Steps

variable {size : Nat} {detached : Nat → Nat} {free : List Nat}
  {session : Session (Workbench levels Body) Nat} {name : String} {slot : Nat}

theorem kept_start [NodeKind levels Body] (hasLevel : 0 < levels) {back : Option Link}
    {body : Body} {pool : Pool levels Body} (nowhere : back.bind Link.slot? = none)
    (made : reserve 0 size back body = .ok pool) :
    pool.size = size ∧ Kept (fun _ => 0) (List.range' 0 size)
      (Session.start (Workbench.ofPool pool)) := by
  rcases Nat.lt_or_ge size (NodeKind.limit levels Body) with granted | refused
  · rw [reserve_of_lt granted] at made
    rw [← Except.ok.inj made]
    have accounted : (threaded 0 size (Nat.lt_of_lt_of_le granted NodeKind.limit_le) back body :
        Pool levels Body).Accounted (List.range' 0 size) fun slot => if slot < 0 then 1 else 0 :=
      accounted_threaded hasLevel (Nat.zero_le size) nowhere
    exact ⟨size_threaded, accounted.toBalanced.congr fun slot _ => rfl,
      fun slot counted => absurd counted (Nat.lt_irrefl 0)⟩
  · rw [reserve_of_le refused] at made
    exact absurd made (by simp)

/-- A slot with a count for it is put under a name. -/
theorem Kept.put (kept : Kept detached free session) {later : List Nat} {pool : Pool levels Body}
    (balanced : Balanced later (addCount (outside detached session.handles) slot) pool)
    (size : pool.size = session.subject.pool.size) (inside : slot < session.subject.pool.size) :
    Kept (displacing detached session.handles name) later
      ⟨{ session.subject with pool }, session.handles.put name slot⟩ := by
  refine ⟨?balanced, fun other counted => ?inside⟩
  case balanced =>
    rw [outside_put]
    exact balanced
  case inside =>
    rw [outside_put] at counted
    unfold addCount at counted
    show other < pool.size
    rw [size]
    split at counted
    next same => rwa [same]
    next => exact kept.inside other counted

/-- A count may be taken on any slot of the pool and be kept under a name. -/
theorem Kept.retained (kept : Kept detached free session)
    (inside : slot < session.subject.pool.size) :
    Kept (displacing detached session.handles name) free
      ⟨{ session.subject with pool := session.subject.pool.retained slot },
        session.handles.put name slot⟩ :=
  kept.put (kept.balanced.retained inside) (size_recount _ _) inside

/-- The handles of a session are on slots of the pool. -/
theorem Kept.inside_of_find? (kept : Kept detached free session)
    (found : session.handles.find? name = some slot) : slot < session.subject.pool.size := by
  refine kept.inside slot ?_
  rw [outside_of_find? found]
  rw [addCount_self]
  exact Nat.succ_pos _

omit [Inhabited Body] in
/-- The pool's own part of a step. -/
theorem onPool_ends {Outcome : Type} {action : Action levels Body Outcome}
    {workbench : Workbench levels Body} {condition : Outcome → Workbench levels Body → Prop}
    (ends : Ends action workbench.pool fun outcome pool =>
      condition outcome { workbench with pool }) :
    Ends (Workbench.onPool action) workbench condition :=
  Ends.within ends

end Steps

/-! ### Places -/

section Places

variable {workbench : Workbench levels Body} {place : Place} {link : Link}

omit [Inhabited Body] in
theorem load_ends {condition : Link → Workbench levels Body → Prop}
    (there : workbench.linkIn? place = some link) (holds : condition link workbench) :
    Ends (Workbench.load place) workbench condition := by
  cases place with
  | cell index =>
    refine Ends.reading ?_ holds
    unfold Workbench.cellLink
    rw [show workbench.cells[index]? = some link from there]
  | link slot level =>
    refine onPool_ends (Ends.of_eq ?_ holds)
    unfold linkAt
    rw [show workbench.pool.link? slot level = some link from there]
  | back slot =>
    refine onPool_ends (Ends.of_eq ?_ holds)
    unfold backAt
    rw [show (workbench.pool.node? slot).bind Node.back = some link from there]

theorem linkIn?_of_isOpen (isOpen : workbench.isOpen place = true) :
    ∃ link, workbench.linkIn? place = some link := by
  cases place with
  | cell index =>
    exact ⟨_, Vector.getElem?_eq_getElem (of_decide_eq_true isOpen : index < cellCount)⟩
  | link slot level =>
    obtain ⟨inside, reached, _⟩ := of_decide_eq_true isOpen
    exact ⟨_, link?_eq_some inside reached⟩
  | back slot => exact absurd isOpen Bool.false_ne_true

/-- A link of a live node may be written as one likes. -/
theorem Balanced.withLink {free : List Nat} {outside : Nat → Nat} {pool : Pool levels Body}
    {slot level : Nat} (balanced : Balanced free outside pool) (inside : slot < pool.size)
    (reached : level < levels) (occupied : slot ∉ free) (link : Link) :
    Balanced free outside (pool.withLink slot level link) := by
  refine (balanced.of_frame (fun _ => 0) (size_withLink slot level link) rfl ?links
    (fun other => ?back) fun other _ => counterOf_withLink inside other).congr fun _ _ => rfl
  case links =>
    intro other member anyLevel
    rw [linkOf_withLink inside reached, if_neg]
    rintro ⟨rfl, -⟩
    exact occupied member
  case back => exact back?_congr (backOf_withLink inside other)

/-- Whatever is stored where any link may be written, the books stay as they are. -/
theorem store_ends {free : List Nat} {outside : Nat → Nat}
    (balanced : Balanced free outside workbench.pool) (isOpen : workbench.isOpen place = true)
    (link : Link) : Ends (Workbench.store link place) workbench fun _ after =>
      Balanced free outside after.pool ∧ after.pool.size = workbench.pool.size := by
  cases place with
  | cell index =>
    obtain ⟨old, there⟩ := linkIn?_of_isOpen isOpen
    have found : Workbench.cellLink index workbench = .ok old := by
      unfold Workbench.cellLink
      rw [show workbench.cells[index]? = some old from there]
    exact Ends.bind (Ends.reading found (Ends.updating ⟨balanced, rfl⟩))
  | link slot level =>
    obtain ⟨inside, reached, live⟩ := of_decide_eq_true isOpen
    refine onPool_ends (setLink_ends inside reached ⟨?_, size_withLink slot level link⟩)
    exact balanced.withLink inside reached ((balanced.not_free_iff inside).mpr live) link
  | back slot => exact absurd isOpen Bool.false_ne_true

/-- A reference back may be stored in a node of a kind that has one. -/
theorem store_back_ends {slot : Nat} {old : Link}
    {condition : Unit → Workbench levels Body → Prop} (inside : slot < workbench.pool.size)
    (there : workbench.pool.backOf slot = some old)
    (holds : condition () { workbench with pool := workbench.pool.withBack slot link }) :
    Ends (Workbench.store link (.back slot)) workbench condition :=
  onPool_ends (Ends.bind (backAt_ends there inside (setBack_ends inside holds)))

end Places

/-! ### Steps -/

/-- A step kept the books, with this free list after it. -/
structure Advanced (detached : Nat → Nat) (free later : List Nat)
    (session : Session (Workbench levels Body) Nat) (step : Step) (answer : Answer)
    (after : Session (Workbench levels Body) Nat) : Prop where
  kept : Kept (nextDetached detached session step answer) later after
  size : after.subject.pool.size = session.subject.pool.size
  moves : Moves session.subject.pool.size free later
    (countsOn (nextDetached detached session step answer) after) answer step

section Steps

variable {detached : Nat → Nat} {free : List Nat}
  {session : Session (Workbench levels Body) Nat}

/-- No step makes more counts than are put under names. -/
theorem Kept.onward (kept : Kept detached free session) {remaining : Nat → Nat} {later : List Nat}
    {after : Session (Workbench levels Body) Nat}
    (balanced : Balanced later (outside remaining after.handles) after.subject.pool)
    (size : after.subject.pool.size = session.subject.pool.size)
    (fewer : ∀ slot, outside remaining after.handles slot ≤ outside detached session.handles slot) :
    Kept remaining later after where
  balanced := balanced
  inside slot counted := by
    rw [size]
    exact kept.inside slot (Nat.lt_of_lt_of_le counted (fewer slot))

/-- The slots on which there is no count are free. -/
theorem Kept.mem_of_countsOn_eq_zero (kept : Kept detached free session) {slot : Nat}
    (inside : slot < session.subject.pool.size) (uncounted : countsOn detached session slot = 0) :
    slot ∈ free := by
  refine Decidable.byContradiction fun absent => ?_
  have held := kept.balanced.held slot inside absent
  exact absurd uncounted (Nat.pos_iff_ne_zero.mp held)

/-- A step that has nothing to release frees nothing. -/
theorem Kept.moves_none (kept : Kept detached free session) (slot : Nat) :
    slot ∈ [] ↔
      slot < session.subject.pool.size ∧ slot ∉ free ∧ countsOn detached session slot = 0 :=
  ⟨nofun, fun ⟨inside, absent, uncounted⟩ =>
    absurd (kept.mem_of_countsOn_eq_zero inside uncounted) absent⟩

theorem Kept.allocate_ends (hasLevel : 0 < levels) (kept : Kept detached free session)
    (name : String) : Ends (take (.allocate name)) session fun answer after =>
      ∃ later, Advanced detached free later session (.allocate name) answer after := by
  refine Ends.bind (act_ends (onPool_ends ?_))
  cases free with
  | nil =>
    refine kept.balanced.allocate_ends_of_nil (Ends.pure ⟨[], kept, rfl, ?_⟩)
    exact Or.inl ⟨rfl, rfl, rfl⟩
  | cons slot rest =>
    refine kept.balanced.allocate_ends hasLevel fun pool taken balanced => ?_
    refine Ends.bind (put_ends (Ends.pure ⟨rest, ?_, taken.size, Or.inr ⟨slot, rfl, rfl⟩⟩))
    exact kept.put balanced taken.size (kept.balanced.inside slot List.mem_cons_self)

theorem Kept.release_ends (hasLevel : 0 < levels) (kept : Kept detached free session)
    (name : String) : Ends (take (.release name)) session fun answer after =>
      ∃ later, Advanced detached free later session (.release name) answer after := by
  refine withHandle_ends (fun _ => ⟨free, kept, rfl, [], rfl, kept.moves_none⟩) fun slot found => ?_
  have balanced := kept.balanced
  rw [outside_of_find? found] at balanced
  refine Ends.bind (forget_ends (Ends.bind (act_ends (onPool_ends ?_))))
  refine (balanced.release_ends hasLevel (kept.inside_of_find? found)).imp fun _ pool dropped => ?_
  obtain ⟨freed, dropped⟩ := dropped
  have keptAfter : Kept detached (freed ++ free)
      ⟨{ session.subject with pool }, session.handles.erase name⟩ := by
    refine kept.onward dropped.balanced dropped.size fun other => ?_
    rw [outside_of_find? found]
    exact Nat.le_add_right _ _
  refine Ends.pure ⟨freed ++ free, keptAfter, dropped.size, freed, rfl, fun other => ⟨?_, ?_⟩⟩
  · intro member
    have inside := dropped.balanced.inside other (List.mem_append_left free member)
    rw [dropped.size] at inside
    have apart := List.disjoint_of_nodup_append dropped.balanced.distinct member
    exact ⟨inside, apart, dropped.idle other member⟩
  · rintro ⟨inside, absent, uncounted⟩
    have member := keptAfter.mem_of_countsOn_eq_zero (by rwa [dropped.size]) uncounted
    exact (List.mem_append.mp member).resolve_right absent

/-- Following a link takes a count on a slot that it names without a mark, be the slot free or
not. -/
theorem Kept.follow_ends (kept : Kept detached free session) (place : Place) (name : String)
    (rules : keepsRules detached session (.follow place name) = true) :
    Ends (take (.follow place name)) session fun answer after =>
      ∃ later, Advanced detached free later session (.follow place name) answer after := by
  obtain ⟨link, there, leads⟩ := (Option.any_eq_true _ _).mp rules
  refine Ends.bind (act_ends (load_ends there (Ends.bind (act_ends (onPool_ends ?_)))))
  by_cases marked : link.isMarked = true
  · exact follow_ends_of_isMarked marked (Ends.pure ⟨free, kept, rfl, rfl⟩)
  · rw [Bool.not_eq_true] at marked
    rw [marked, Bool.false_or] at leads
    cases names : link.slot? with
    | none =>
      unfold Pool.follow
      rw [marked, names]
      exact Ends.pure (Ends.pure ⟨free, kept, rfl, rfl⟩)
    | some slot =>
      rw [names] at leads
      have inside := of_decide_eq_true leads
      refine Pool.follow_ends marked names inside ?_
      exact Ends.bind (put_ends (Ends.pure ⟨free, kept.retained inside, size_recount _ _, rfl⟩))

/-- Any link may be written to a place that is open for it. -/
theorem Kept.write_ends (kept : Kept detached free session) {place : Place}
    (isOpen : session.subject.isOpen place = true) (link : Link) :
    Ends (act (Workbench.store link place)) session fun _ after =>
      Kept detached free after ∧ after.subject.pool.size = session.subject.pool.size := by
  refine act_ends ((store_ends kept.balanced isOpen link).imp fun _ workbench stored => ?_)
  obtain ⟨balanced, size⟩ := stored
  exact ⟨kept.onward balanced size fun _ => Nat.le_refl _, size⟩

/-- A detached count is handed over to a reference back that is nil. -/
theorem Kept.handOver_ends (kept : Kept detached free session) (slot : Nat) (link : Link)
    (rules : keepsRules detached session (.store (.back slot) link) = true) :
    Ends (take (.store (.back slot) link)) session fun answer after =>
      ∃ later, Advanced detached free later session (.store (.back slot) link) answer after := by
  obtain ⟨isBare, names⟩ := Bool.and_eq_true_iff.mp rules
  obtain ⟨inside, live, isNil⟩ := of_decide_eq_true isBare
  obtain ⟨target, named, isCounted⟩ := (Option.any_eq_true _ _).mp names
  obtain ⟨unmarked, counted⟩ := Bool.and_eq_true_iff.mp isCounted
  have there : 0 < detached target := of_decide_eq_true counted
  obtain rfl : link = Link.ofSlot target := beq_iff_eq.mp unmarked
  have targetInside := kept.inside target (Nat.lt_of_lt_of_le there (Nat.le_add_left _ _))
  have balanced := kept.balanced
  rw [← outside_drop session.handles there] at balanced
  have nextDetached_eq : nextDetached detached session (.store (.back slot) (Link.ofSlot target))
      .done = dropCount detached target := by
    show (Link.ofSlot target).slot?.elim detached (dropCount detached) = _
    rw [named]
    rfl
  refine Ends.bind (act_ends (store_back_ends inside isNil (Ends.pure ⟨free, ?_⟩)))
  refine ⟨?_, size_withBack slot _, rfl⟩
  rw [nextDetached_eq]
  refine kept.onward (balanced.withBack inside targetInside
    ((balanced.not_free_iff inside).mpr live) (by rw [isNil]; rfl) ?_) (size_withBack slot _)
    fun other => ?_
  · unfold back?
    rw [isNil]
    exact Link.slot?_nil
  · exact Nat.add_le_add_left (Nat.sub_le _ _) _

/-- Every step that keeps the rules keeps the books. -/
theorem Kept.take_ends (hasLevel : 0 < levels) (kept : Kept detached free session) (step : Step)
    (rules : keepsRules detached session step = true) : Ends (take step) session fun answer after =>
      ∃ later, Advanced detached free later session step answer after := by
  cases step with
  | allocate name => exact kept.allocate_ends hasLevel name
  | clone name copy =>
    refine withHandle_ends (fun _ => ⟨free, kept, rfl, rfl⟩) fun slot found => ?_
    have inside := kept.inside_of_find? found
    refine Ends.bind (act_ends (onPool_ends (retain_ends inside ?_)))
    exact Ends.bind (put_ends (Ends.pure ⟨free, kept.retained inside, size_recount _ _, rfl⟩))
  | release name => exact kept.release_ends hasLevel name
  | detach name =>
    refine withHandle_ends (fun _ => ⟨free, kept, rfl, rfl⟩) fun slot found => ?_
    have same : outside (addCount detached slot) (session.handles.erase name) =
        outside detached session.handles := outside_detach found
    refine Ends.bind (forget_ends (Ends.pure ⟨free, kept.onward ?_ rfl ?_, rfl, rfl⟩))
    · exact same ▸ kept.balanced
    · exact fun other => Nat.le_of_eq (congrFun same other)
  | adopt slot name =>
    have same : outside (displacing (dropCount detached slot) session.handles name)
        (session.handles.put name slot) = outside detached session.handles := by
      rw [outside_put, outside_drop _ (of_decide_eq_true rules)]
    refine Ends.bind (put_ends (Ends.pure ⟨free, kept.onward ?_ rfl ?_, rfl, rfl⟩))
    · exact same ▸ kept.balanced
    · exact fun other => Nat.le_of_eq (congrFun same other)
  | retain slot name =>
    have inside := of_decide_eq_true rules
    refine Ends.bind (act_ends (onPool_ends (retain_ends inside ?_)))
    exact Ends.bind (put_ends (Ends.pure ⟨free, kept.retained inside, size_recount _ _, rfl⟩))
  | follow place name => exact kept.follow_ends place name rules
  | store place link =>
    cases place with
    | cell index =>
      have isOpen : session.subject.isOpen (.cell index) = true := rules
      refine Ends.bind ((kept.write_ends isOpen link).imp fun _ after written => ?_)
      exact Ends.pure ⟨free, written.1, written.2, rfl⟩
    | link slot level =>
      have isOpen : session.subject.isOpen (.link slot level) = true := rules
      refine Ends.bind ((kept.write_ends isOpen link).imp fun _ after written => ?_)
      exact Ends.pure ⟨free, written.1, written.2, rfl⟩
    | back slot => exact kept.handOver_ends slot link rules
  | load place =>
    obtain ⟨link, there⟩ := Option.isSome_iff_exists.mp rules
    exact Ends.bind (act_ends (load_ends there (Ends.pure ⟨free, kept, rfl, rfl⟩)))
  | swap place expected replacement =>
    obtain ⟨found, there⟩ := linkIn?_of_isOpen rules
    refine Ends.bind (act_ends (load_ends there ?_))
    refine Ends.bind ((kept.write_ends rules (found.swap expected replacement).2).imp ?_)
    exact fun _ after written => Ends.pure ⟨free, written.1, written.2, rfl⟩
  | mark place =>
    obtain ⟨found, there⟩ := linkIn?_of_isOpen rules
    refine Ends.bind (act_ends (load_ends there ?_))
    refine Ends.bind ((kept.write_ends rules found.mark.2).imp ?_)
    exact fun _ after written => Ends.pure ⟨free, written.1, written.2, rfl⟩
  | inspect name =>
    refine withHandle_ends (fun _ => ⟨free, kept, rfl, rfl⟩) fun slot found => ?_
    refine Ends.bind (act_ends (onPool_ends (nodeAt_ends (kept.inside_of_find? found) ?_)))
    exact Ends.pure ⟨free, kept, rfl, rfl⟩
  | isOn name slot =>
    exact withHandle_ends (fun _ => ⟨free, kept, rfl, rfl⟩) fun own _ =>
      Ends.pure ⟨free, kept, rfl, rfl⟩
  | isLive slot =>
    refine Ends.bind (act_ends (onPool_ends (Ends.bind (nodeAt_ends (of_decide_eq_true rules) ?_))))
    exact Ends.pure (Ends.pure ⟨free, kept, rfl, rfl⟩)
  | size => exact reading_ends rfl ⟨free, kept, rfl, rfl⟩
  | describe => exact reading_ends rfl ⟨free, kept, rfl, rfl⟩
  | dump => exact reading_ends rfl ⟨free, kept, rfl, rfl⟩

end Steps

end Pool

end PooledContainers
