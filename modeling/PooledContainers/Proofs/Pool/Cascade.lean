/-
What follows when a count is given up. A node that loses its last count is freed, and the count that
it held on another node by its reference back is given up in turn. Whatever the references back look
like, shared or in cycles, this runs along the chain of the references through the nodes on which
there is no other count, each of them once, and stops at the first node that is held otherwise.
-/

import PooledContainers.Proofs.Limits
import PooledContainers.Proofs.Pool.Runs

namespace PooledContainers

namespace Pool

open Operation

variable {levels : Nat} {Body : Type} [Inhabited Body]

/-! ### The chain of the references back -/

/-- The chain of references back from a slot starts with a run of different nodes with a single
count each, and stops at a node with more counts, or at none where the last node of the run refers
to no other. -/
inductive Falling (pool : Pool levels Body) : Option Nat → List Nat → Option Nat → Prop
  | nowhere : Falling pool none [] none
  | stop {slot : Nat} (inside : slot < pool.size) (more : 2 < pool.counterOf slot) :
    Falling pool (some slot) [] (some slot)
  | fall {slot : Nat} {rest : List Nat} {stop : Option Nat} (inside : slot < pool.size)
      (last : pool.counterOf slot = 2) (further : Falling pool (pool.back? slot) rest stop)
      (new : slot ∉ rest) : Falling pool (some slot) (slot :: rest) stop

variable {pool after : Pool levels Body}

namespace Falling

variable {start stop : Option Nat} {run : List Nat}

theorem of_mem (falling : Falling pool start run stop) {slot : Nat} (member : slot ∈ run) :
    slot < pool.size ∧ pool.counterOf slot = 2 := by
  induction falling with
  | nowhere => cases member
  | stop => cases member
  | fall inside last _ _ inductionHypothesis =>
    rcases List.mem_cons.mp member with rfl | inRest
    · exact ⟨inside, last⟩
    · exact inductionHypothesis inRest

theorem nodup (falling : Falling pool start run stop) : run.Nodup := by
  induction falling with
  | nowhere => exact List.nodup_nil
  | stop => exact List.nodup_nil
  | fall _ _ _ new inductionHypothesis => exact List.nodup_cons.mpr ⟨new, inductionHypothesis⟩

/-- A slot is freed at most once, so that the size of the pool bounds the run. -/
theorem length_le (falling : Falling pool start run stop) : run.length ≤ pool.size :=
  length_le_of_forall_lt falling.nodup fun _ member => (falling.of_mem member).1

/-- The run stops at a node with more than one count. -/
theorem of_stop (falling : Falling pool start run stop) {slot : Nat} (stops : stop = some slot) :
    slot < pool.size ∧ 2 < pool.counterOf slot := by
  induction falling with
  | nowhere => exact absurd stops (by simp)
  | stop inside more =>
    obtain rfl := Option.some.inj stops
    exact ⟨inside, more⟩
  | fall _ _ _ _ inductionHypothesis => exact inductionHypothesis stops

theorem stop_ne (falling : Falling pool start run stop) {slot : Nat}
    (few : pool.counterOf slot ≤ 2) : stop ≠ some slot := fun stops =>
  Nat.not_lt_of_le few (falling.of_stop stops).2

/-- A change of a node that is not on the chain does not matter. -/
theorem elsewhere (falling : Falling pool start run stop) {slot : Nat} (new : slot ∉ run)
    (apart : stop ≠ some slot) (size : after.size = pool.size)
    (counter : ∀ other, other ≠ slot → after.counterOf other = pool.counterOf other)
    (back : ∀ other, other ≠ slot → after.back? other = pool.back? other) :
    Falling after start run stop := by
  induction falling with
  | nowhere => exact nowhere
  | stop inside more =>
    refine Falling.stop (size ▸ inside) ?_
    rwa [counter _ fun same => apart (congrArg some same)]
  | @fall first rest _ inside last _ firstNew inductionHypothesis =>
    have notFirst : first ≠ slot := fun same => new (same ▸ List.mem_cons_self)
    have further := inductionHypothesis (fun member => new (List.mem_cons_of_mem _ member)) apart
    refine fall (size ▸ inside) ?_ ?_ firstNew
    · rwa [counter _ notFirst]
    · rwa [back _ notFirst]

/-- The rest of the run is the same when its first node is reclaimed. -/
theorem reclaimed (further : Falling pool start run stop) {slot : Nat} (inside : slot < pool.size)
    (last : pool.counterOf slot = 2) (new : slot ∉ run) :
    Falling (pool.reclaimed slot) start run stop := by
  refine further.elsewhere new (further.stop_ne (Nat.le_of_eq last)) (size_reclaimed slot)
    (fun other apart => ?_) fun other apart => ?_
  · rw [counterOf_reclaimed inside, if_neg apart]
  · rw [back?_reclaimed inside, if_neg apart]

/-- The rest of the run is the same when its first node is claimed. -/
theorem claimed (further : Falling pool start run stop) {slot : Nat} (inside : slot < pool.size)
    (last : pool.counterOf slot = 2) (new : slot ∉ run) :
    Falling (pool.recount slot 1) start run stop := by
  refine further.elsewhere new (further.stop_ne (Nat.le_of_eq last)) (size_recount slot 1)
    (fun other apart => ?_) fun other _ => ?_
  · rw [counterOf_recount _ _ inside, if_neg apart]
  · exact back?_recount slot 1 other

/-- A chain falls into one run only. -/
theorem unique {others : List Nat} {otherStop : Option Nat}
    (falling : Falling pool start run stop) (other : Falling pool start others otherStop) :
    run = others ∧ stop = otherStop := by
  induction falling generalizing others with
  | nowhere =>
    cases other with
    | nowhere => exact ⟨rfl, rfl⟩
  | stop inside more =>
    cases other with
    | stop => exact ⟨rfl, rfl⟩
    | fall _ last => exact absurd last (Nat.ne_of_gt more)
  | fall inside last _ _ inductionHypothesis =>
    cases other with
    | stop _ more => exact absurd last (Nat.ne_of_gt more)
    | fall _ _ further =>
      obtain ⟨rfl, same⟩ := inductionHypothesis further
      exact ⟨rfl, same⟩

end Falling

/-- From a slot with a count held outside the chain falls into such a run. The count of a node of
the run is all that it has, so that nothing else refers to it and the chain does not come back. -/
theorem Tallied.exists_falling (hasLevel : 0 < levels) (bound : Nat) {free : List Nat}
    {outside : Nat → Nat} {slot : Nat} {pool : Pool levels Body}
    (tallied : Tallied free (addCount outside slot) pool) (inside : slot < pool.size)
    (enough : pool.size < bound + free.length) :
    ∃ run stop, Falling pool (some slot) run stop := by
  induction bound generalizing free outside slot pool with
  | zero =>
    have short := tallied.length_le
    omega
  | succ bound inductionHypothesis =>
    have counted := tallied.two_le_counter inside
    by_cases last : pool.counterOf slot = 2
    · cases names : pool.back? slot with
      | none =>
        refine ⟨[slot], none, Falling.fall inside last ?_ List.not_mem_nil⟩
        rw [names]
        exact Falling.nowhere
      | some next =>
        have handed : Tallied (slot :: free) (addCount outside next) (pool.reclaimed slot) :=
          tallied.reclaimed hasLevel inside last fun target => by
            unfold addCount
            rw [names]
            simp only [Option.some.injEq, eq_comm]
        obtain ⟨rest, stop, falling⟩ := inductionHypothesis handed
          (by rw [size_reclaimed]; exact tallied.backInside slot inside next names)
          (by rw [size_reclaimed, List.length_cons]; omega)
        -- The node that is freed now has a counter of one, so that the run does not meet it again.
        have counter : ∀ other, (pool.reclaimed slot).counterOf other =
            if other = slot then 1 else pool.counterOf other := counterOf_reclaimed inside
        have claimed : (pool.reclaimed slot).counterOf slot = 1 := by rw [counter, if_pos rfl]
        have new : slot ∉ rest := fun member => by
          have two := (falling.of_mem member).2
          omega
        refine ⟨slot :: rest, stop, Falling.fall inside last ?_ new⟩
        rw [names]
        refine falling.elsewhere new (falling.stop_ne (by omega)) (size_reclaimed slot).symm
          (fun other apart => ?_) fun other apart => ?_
        · rw [counter, if_neg apart]
        · rw [back?_reclaimed inside, if_neg apart]
    · exact ⟨[], some slot, Falling.stop inside (Nat.lt_of_le_of_ne counted (Ne.symm last))⟩

/-! ### What is freed -/

theorem Returned.mono {freed more : List Nat} (returned : Returned freed pool after)
    (part : ∀ slot ∈ freed, slot ∈ more) : Returned more pool after :=
  { returned with
    links := fun slot absent => returned.links slot fun member => absent (part slot member)
    back := fun slot absent => returned.back slot fun member => absent (part slot member) }

/-- Some nodes were freed, in this order from the free head on, and a count was taken from the node
that comes next, if there is one. No other node has changed. -/
structure Cascaded (freed : List Nat) (stop : Option Nat) (pool after : Pool levels Body) : Prop
    extends Returned freed pool after where
  counter : ∀ slot, after.counterOf slot = if slot ∈ freed then 1
    else if stop = some slot then pool.counterOf slot - 2 else pool.counterOf slot
  /-- The nodes freed are left with a nil reference back and nil links above level 0. -/
  bare : ∀ slot ∈ freed, after.backOf slot = (pool.backOf slot).map fun _ => Link.nil
  blank : ∀ slot ∈ freed, ∀ level, 0 < level → after.linkOf slot level = Link.nil
  chain : ∀ free, pool.FreeChain pool.freeHead free → (∀ slot ∈ freed, slot ∉ free) →
    after.FreeChain after.freeHead (freed ++ free)

namespace Cascaded

variable {freed : List Nat} {stop : Option Nat} {slot : Nat}

theorem nothing (pool : Pool levels Body) : Cascaded [] none pool pool where
  size := rfl
  body _ := rfl
  links _ _ _ := rfl
  back _ _ := rfl
  backThere _ := rfl
  fewer _ _ names := names
  counter _ := rfl
  bare := nofun
  blank := nofun
  chain _ chain _ := chain

theorem surrendered (inside : slot < pool.size) :
    Cascaded [] (some slot) pool (pool.surrendered slot) where
  toReturned := returned_recount slot _
  counter other := by
    rw [counterOf_recount _ _ inside, if_neg List.not_mem_nil]
    simp only [Option.some.injEq, eq_comm (a := slot)]
    split
    next same => rw [same]
    next => rfl
  bare := nofun
  blank := nofun
  chain _ chain _ := chain.congr fun other _ => linkOf_recount slot _ other 0

/-- The node with which it starts is put onto the free list in front of all that follows. -/
theorem outward (hasLevel : 0 < levels) (inside : slot < pool.size) (new : slot ∉ freed)
    (apart : stop ≠ some slot) (cascaded : Cascaded freed stop (pool.reclaimed slot) after) :
    Cascaded (freed ++ [slot]) stop pool after := by
  refine ⟨(returned_reclaimed hasLevel inside).trans cascaded.toReturned, fun other => ?counter,
    fun other member => ?bare, fun other member level above => ?blank,
    fun free chain absent => ?chain⟩
  case counter =>
    rw [cascaded.counter, counterOf_reclaimed inside]
    simp only [List.mem_append, List.mem_singleton]
    by_cases same : other = slot
    · subst same
      rw [if_neg new, if_neg apart, if_pos rfl, if_pos (Or.inr rfl)]
    · simp only [same, or_false, if_false]
  case bare =>
    rcases List.mem_append.mp member with inFreed | isSlot
    · have other_ne : other ≠ slot := fun same => new (same ▸ inFreed)
      rw [cascaded.bare other inFreed, backOf_reclaimed inside, if_neg other_ne]
    · obtain rfl := List.mem_singleton.mp isSlot
      rw [cascaded.back other new, backOf_reclaimed inside, if_pos rfl]
  case blank =>
    rcases List.mem_append.mp member with inFreed | isSlot
    · exact cascaded.blank other inFreed level above
    · obtain rfl := List.mem_singleton.mp isSlot
      rw [cascaded.links other new, linkOf_reclaimed hasLevel inside, if_pos rfl,
        if_neg (Nat.pos_iff_ne_zero.mp above)]
  case chain =>
    have slotAbsent : slot ∉ free := absent slot (by simp)
    have threaded := cascaded.chain (slot :: free) (chain.reclaimed hasLevel inside slotAbsent)
      fun other inFreed => List.not_mem_cons_of_ne_of_not_mem
        (fun same => new (same ▸ inFreed)) (absent other (List.mem_append_left _ inFreed))
    rwa [List.append_assoc]

/-- The node with which it starts is put onto the free list behind all that follows. -/
theorem inward (hasLevel : 0 < levels) (inside : slot < pool.size) (new : slot ∉ freed)
    (cascaded : Cascaded freed stop (pool.recount slot 1) after) :
    Cascaded (slot :: freed) stop pool (after.reclaimed slot) := by
  have size : after.size = pool.size := cascaded.size.trans (size_recount slot 1)
  have afterInside : slot < after.size := size.symm ▸ inside
  have returned : Returned ([slot] ++ (freed ++ [])) pool (after.reclaimed slot) :=
    ((returned_recount slot 1).trans cascaded.toReturned).trans
      (returned_reclaimed hasLevel afterInside)
  refine ⟨returned.mono (by simp), fun other => ?counter, fun other member => ?bare,
    fun other member level above => ?blank, fun free chain absent => ?chain⟩
  case counter =>
    rw [counterOf_reclaimed afterInside, cascaded.counter, counterOf_recount _ _ inside]
    by_cases same : other = slot
    · rw [if_pos same, if_pos (same ▸ List.mem_cons_self)]
    · simp only [List.mem_cons, same, false_or, if_false]
  case bare =>
    rw [backOf_reclaimed afterInside]
    rcases List.mem_cons.mp member with rfl | inFreed
    · rw [if_pos rfl, cascaded.back other new, backOf_recount]
    · rw [if_neg fun same : other = slot => new (same ▸ inFreed), cascaded.bare other inFreed,
        backOf_recount]
  case blank =>
    rw [linkOf_reclaimed hasLevel afterInside]
    rcases List.mem_cons.mp member with rfl | inFreed
    · rw [if_pos rfl, if_neg (Nat.pos_iff_ne_zero.mp above)]
    · rw [if_neg fun same : other = slot => new (same ▸ inFreed)]
      exact cascaded.blank other inFreed level above
  case chain =>
    have threaded := cascaded.chain free (chain.congr fun other _ => linkOf_recount slot 1 other 0)
      fun other inFreed => absent other (List.mem_cons_of_mem _ inFreed)
    exact threaded.reclaimed hasLevel afterInside
      (List.mem_append.not.mpr (not_or.mpr ⟨new, absent slot List.mem_cons_self⟩))

end Cascaded

/-! ### The loop and the recursion -/

/-- Give up one count on a slot, told as a recursion. A node that loses its last count first gives
up in turn the count that it holds by its reference back, and is put onto the free list then, which
also takes the reference away. The number bounds the nodes visited. -/
def releaseInward : Nat → Nat → Action levels Body Unit
  | 0, _ => Operation.stop .unfinished
  | bound + 1, slot => do
    let claimed ← surrender slot
    if claimed then do
      let node ← nodeAt slot
      node.back?.elim (pure ()) (releaseInward bound)
      let _ ← reclaim slot
      pure ()
    else pure ()

omit [Inhabited Body] in
theorem releaseChain_cutsShort {bound further : Nat} (le : bound ≤ further) (slot : Nat) :
    CutsShort (releaseChain bound slot : Action levels Body Unit) (releaseChain further slot) := by
  induction bound generalizing further slot with
  | zero => exact .stop _
  | succ bound inductionHypothesis =>
    obtain ⟨further, rfl⟩ := Nat.exists_eq_add_of_le' (Nat.le_trans (Nat.succ_pos bound) le)
    refine .andThen _ fun claimed => .ite (.andThen _ fun next => ?_) (.refl _)
    cases next with
    | none => exact .refl _
    | some next => exact inductionHypothesis (Nat.le_of_succ_le_succ le) next

omit [Inhabited Body] in
theorem releaseInward_cutsShort {bound further : Nat} (le : bound ≤ further) (slot : Nat) :
    CutsShort (releaseInward bound slot : Action levels Body Unit)
      (releaseInward further slot) := by
  induction bound generalizing further slot with
  | zero => exact .stop _
  | succ bound inductionHypothesis =>
    obtain ⟨further, rfl⟩ := Nat.exists_eq_add_of_le' (Nat.le_trans (Nat.succ_pos bound) le)
    refine .andThen _ fun claimed => .ite (.andThen _ fun node => .bind ?_ fun _ => .refl _)
      (.refl _)
    cases node.back? with
    | none => exact .refl _
    | some next => exact inductionHypothesis (Nat.le_of_succ_le_succ le) next

namespace Falling

variable {start stop : Option Nat} {run : List Nat}

/-- The loop frees a run from its first node on, so that the last one comes to be the first that is
free. -/
theorem releaseChain_ends (hasLevel : 0 < levels) {start : Option Nat} {run : List Nat}
    {pool : Pool levels Body} (falling : Falling pool start run stop) (bound : Nat)
    (enough : run.length < bound) :
    Ends (start.elim (pure ()) (releaseChain bound)) pool fun _ after =>
      Cascaded run.reverse stop pool after := by
  induction run generalizing start pool bound with
  | nil =>
    obtain ⟨bound, rfl⟩ := Nat.exists_eq_add_of_lt enough
    cases falling with
    | nowhere => exact Ends.pure (Cascaded.nothing pool)
    | stop inside more =>
      exact releaseChain_ends_of_lt _ inside more (Cascaded.surrendered inside)
  | cons slot rest inductionHypothesis =>
    obtain ⟨bound, rfl⟩ := Nat.exists_eq_add_of_le' (Nat.le_trans (Nat.succ_pos _) enough)
    cases falling with
    | fall inside last further new =>
      have apart := further.stop_ne (Nat.le_of_eq last)
      refine releaseChain_ends_of_last bound inside last ((inductionHypothesis
        (further.reclaimed inside last new) bound (Nat.lt_of_succ_lt_succ enough)).imp
        fun _ after cascaded => ?_)
      rw [List.reverse_cons]
      exact cascaded.outward hasLevel inside (by rwa [List.mem_reverse]) apart

/-- The recursion frees a run from its last node on. -/
theorem releaseInward_ends (hasLevel : 0 < levels) {start : Option Nat} {run : List Nat}
    {pool : Pool levels Body} (falling : Falling pool start run stop) (bound : Nat)
    (enough : run.length < bound) :
    Ends (start.elim (pure ()) (releaseInward bound)) pool fun _ after =>
      Cascaded run stop pool after := by
  induction run generalizing start pool bound with
  | nil =>
    obtain ⟨bound, rfl⟩ := Nat.exists_eq_add_of_lt enough
    cases falling with
    | nowhere => exact Ends.pure (Cascaded.nothing pool)
    | stop inside more =>
      refine Ends.bind (surrender_ends_of_lt inside more ?_)
      rw [if_neg Bool.false_ne_true]
      exact Ends.pure (Cascaded.surrendered inside)
  | cons slot rest inductionHypothesis =>
    obtain ⟨bound, rfl⟩ := Nat.exists_eq_add_of_le' (Nat.le_trans (Nat.succ_pos _) enough)
    cases falling with
    | fall inside last further new =>
      have back : ((pool.recount slot 1).nodeOf slot).back? = pool.back? slot :=
        back?_recount slot 1 slot
      refine Ends.bind (surrender_ends_of_last inside last ?_)
      rw [if_pos rfl]
      refine Ends.bind (nodeAt_ends (by rwa [size_recount]) ?_)
      rw [back]
      refine Ends.andThen (inductionHypothesis (further.claimed inside last new) bound
        (Nat.lt_of_succ_lt_succ enough)) fun _ middle cascaded => ?_
      refine Ends.bind (reclaim_ends ?_ (Ends.pure (cascaded.inward hasLevel inside new)))
      rwa [cascaded.size, size_recount]

end Falling

/-- A count on a slot was given up, by the loop as well as by the recursion. -/
structure GivenUp (free : List Nat) (slot : Nat) (pool after nested : Pool levels Body)
    (run : List Nat) (stop : Option Nat) : Prop where
  falling : Falling pool (some slot) run stop
  /-- The loop claims the nodes of the run, once each, which are no more than there are slots. -/
  length : run.length ≤ pool.size
  loop : ∀ bound, run.length < bound → releaseChain bound slot pool = .ok ((), after)
  outward : Cascaded run.reverse stop pool after
  chain : after.FreeChain after.freeHead (run.reverse ++ free)
  distinct : (run.reverse ++ free).Nodup
  recursion : ∀ bound, run.length < bound → releaseInward bound slot pool = .ok ((), nested)
  inward : Cascaded run stop pool nested
  nestedChain : nested.FreeChain nested.freeHead (run ++ free)
  /-- Both leave the same counters. -/
  counter : ∀ other, nested.counterOf other = after.counterOf other

/-- Giving up a count ends, whatever the references back look like, if the counters show the counts
and the free list is exact. -/
theorem release_cascades (hasLevel : 0 < levels) {free : List Nat} {outside : Nat → Nat}
    {slot : Nat} (tallied : Tallied free outside pool) (inside : slot < pool.size)
    (isHeld : 0 < outside slot) : ∃ run stop after nested,
      release slot pool = .ok ((), after) ∧ GivenUp free slot pool after nested run stop := by
  rw [← addCount_dropCount isHeld] at tallied
  obtain ⟨run, stop, falling⟩ := tallied.exists_falling hasLevel (pool.size + 1) inside (by omega)
  obtain ⟨_, after, looped, outward⟩ :=
    falling.releaseChain_ends hasLevel (run.length + 1) (Nat.lt_succ_self _)
  obtain ⟨_, nested, recursed, inward⟩ :=
    falling.releaseInward_ends hasLevel (run.length + 1) (Nat.lt_succ_self _)
  have occupied : ∀ other ∈ run, other ∉ free := fun other member => by
    obtain ⟨otherInside, last⟩ := falling.of_mem member
    exact (tallied.not_free_iff otherInside).mpr (by rw [last])
  have backwards : ∀ other ∈ run.reverse, other ∉ free := fun other member =>
    occupied other (List.mem_reverse.mp member)
  have loop : ∀ bound, run.length < bound → releaseChain bound slot pool = .ok ((), after) :=
    fun bound enough => (releaseChain_cutsShort enough slot).eq_ok looped
  have length := falling.length_le
  refine ⟨run, stop, after, nested, loop _ (Nat.lt_succ_of_le length), falling, length, loop,
    outward, outward.chain free tallied.chain backwards, ?distinct,
    fun bound enough => (releaseInward_cutsShort enough slot).eq_ok recursed, inward,
    inward.chain free tallied.chain occupied, fun other => ?counter⟩
  case distinct =>
    exact List.nodup_append'.mpr ⟨List.nodup_reverse.mpr falling.nodup, tallied.distinct,
      fun other member => backwards other member⟩
  case counter =>
    rw [inward.counter, outward.counter]
    simp only [List.mem_reverse]

/-- Four nodes whose references back lead from the first over the second into a cycle of the other
two. -/
def cyclicBacks : List Step :=
  [.allocate "first", .allocate "second", .allocate "third", .allocate "fourth",
    .clone "third" "again", .detach "second", .detach "third", .detach "fourth", .detach "again",
    .store (.back 0) (Link.ofSlot 1), .store (.back 1) (Link.ofSlot 2),
    .store (.back 2) (Link.ofSlot 3), .store (.back 3) (Link.ofSlot 2)]

theorem exists_cyclicBacks : ∃ detached session,
    followFromStart 1 4 (some Link.nil) () cyclicBacks = some (detached, session) ∧
      session.handles.find? "first" = some 0 ∧
      Falling session.subject.pool (some 0) [0, 1] (some 2) ∧
      session.subject.pool.back? 2 = some 3 ∧ session.subject.pool.back? 3 = some 2 := by
  have found : ((followFromStart 1 4 (some Link.nil) () cyclicBacks).filter fun reached =>
      decide (reached.2.handles.find? "first" = some 0 ∧ reached.2.subject.pool.size = 4 ∧
        ([0, 1, 2].map reached.2.subject.pool.counterOf = [2, 2, 4]) ∧
        [0, 1, 2, 3].map reached.2.subject.pool.back? =
          [some 1, some 2, some 3, some 2])).isSome = true := by
    decide +kernel
  obtain ⟨⟨detached, session⟩, same⟩ := Option.isSome_iff_exists.mp found
  obtain ⟨followed, met⟩ := Option.filter_eq_some_iff.mp same
  obtain ⟨named, size, counters, backs⟩ := of_decide_eq_true met
  simp only [List.map_cons, List.map_nil, List.cons.injEq, and_true] at counters backs
  obtain ⟨first, second, third⟩ := counters
  obtain ⟨toSecond, toThird, toFourth, around⟩ := backs
  have inside : ∀ slot < 4, slot < session.subject.pool.size := fun slot low => size ▸ low
  refine ⟨detached, session, followed, named, ?_, toFourth, around⟩
  refine Falling.fall (inside 0 (by decide)) first ?_ (by decide)
  rw [toSecond]
  refine Falling.fall (inside 1 (by decide)) second ?_ (by decide)
  rw [toThird]
  exact Falling.stop (inside 2 (by decide)) (by rw [third]; decide)

/-- The count on the first node is given up along with that on the second one, while the cycle
stays. -/
theorem release_cascades_cyclicBacks : ∃ detached session free after nested,
    followFromStart 1 4 (some Link.nil) () cyclicBacks = some (detached, session) ∧
      session.subject.pool.back? 2 = some 3 ∧ session.subject.pool.back? 3 = some 2 ∧
      release 0 session.subject.pool = .ok ((), after) ∧
      GivenUp free 0 session.subject.pool after nested [0, 1] (some 2) := by
  obtain ⟨detached, session, followed, named, falling, toFourth, around⟩ := exists_cyclicBacks
  obtain ⟨-, free, kept⟩ := (Reached.of_steps followed).kept Nat.one_pos rfl
  have isHeld : 0 < outside detached session.handles 0 := by
    rw [outside_of_find? named, addCount_self]
    exact Nat.succ_pos _
  obtain ⟨run, stop, after, nested, released, givenUp⟩ :=
    release_cascades Nat.one_pos kept.balanced.tallied (kept.inside 0 isHeld) isHeld
  obtain ⟨rfl, rfl⟩ := falling.unique givenUp.falling
  exact ⟨detached, session, free, after, nested, followed, toFourth, around, released, givenUp⟩

end Pool

end PooledContainers
