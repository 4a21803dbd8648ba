/-
The books of a pool. Every counter shows twice the counts on its node, those held outside the pool
and those of references back, and one more while the node is free. The free nodes are threaded along
level 0 from the free head, and a node that is not free is held by someone. A free node may be held
too, by one who came too late to it; such a count neither revives the node nor frees it again.
Taking a count, giving one up with all that follows from it, and allocating keep the books balanced.
-/

import PooledContainers.Proofs.Pool.View

namespace PooledContainers

namespace Pool

open Operation

variable {levels : Nat} {Body : Type} [Inhabited Body]

/-! ### The books of a pool -/

/-- The number of nodes whose reference back names a slot. -/
def backCount (pool : Pool levels Body) (slot : Nat) : Nat :=
  (List.range pool.size).countP fun other => decide (pool.back? other = some slot)

/-- A link leads along level 0 through some slots and then to no node. -/
def FreeChain (pool : Pool levels Body) : Link → List Nat → Prop
  | link, [] => link = Link.nil
  | link, slot :: rest => link = Link.ofSlot slot ∧ FreeChain pool (pool.linkOf slot 0) rest

/-- Counts with one more on a slot. -/
def addCount (counts : Nat → Nat) (slot : Nat) : Nat → Nat := fun other =>
  counts other + if other = slot then 1 else 0

theorem addCount_self (counts : Nat → Nat) (slot : Nat) :
    addCount counts slot slot = counts slot + 1 := by
  unfold addCount
  rw [if_pos rfl]

theorem addCount_add (counts more : Nat → Nat) (slot other : Nat) :
    addCount (fun other => counts other + more other) slot other =
      addCount counts slot other + more other := Nat.add_right_comm _ _ _

/-- Counts on the slots of a list are one more on the first of them and counts on the rest. -/
theorem addCount_count (counts : Nat → Nat) (slot : Nat) (rest : List Nat) (other : Nat) :
    addCount (fun other => counts other + rest.count other) slot other =
      counts other + (slot :: rest).count other := by
  unfold addCount
  rw [List.count_cons, Nat.add_assoc]
  simp only [beq_iff_eq, eq_comm (a := slot)]

theorem addCount_singleton (counts : Nat → Nat) (slot : Nat) :
    addCount counts slot = fun other => counts other + [slot].count other :=
  funext fun other => addCount_count counts slot [] other

theorem addCount_pair (counts : Nat → Nat) (first second other : Nat) :
    addCount (addCount counts second) first other = counts other + [first, second].count other := by
  rw [addCount_singleton counts second]
  exact addCount_count counts first [second] other

/-- The counters of a pool agree with the counts held outside of it and with its references back,
and the free slots are threaded in this order. -/
structure Balanced (free : List Nat) (outside : Nat → Nat) (pool : Pool levels Body) : Prop where
  counter : ∀ slot < pool.size, pool.counterOf slot =
    2 * (outside slot + pool.backCount slot) + if slot ∈ free then 1 else 0
  /-- What is not free is held. -/
  held : ∀ slot < pool.size, slot ∉ free → 0 < outside slot + pool.backCount slot
  inside : ∀ slot ∈ free, slot < pool.size
  distinct : free.Nodup
  chain : pool.FreeChain pool.freeHead free
  /-- Free nodes have no reference back -/
  bare : ∀ slot ∈ free, pool.back? slot = none
  /-- and no links above level 0. -/
  blank : ∀ slot ∈ free, ∀ level, 0 < level → pool.linkOf slot level = Link.nil
  backInside : ∀ slot < pool.size, ∀ other, pool.back? slot = some other → other < pool.size

/-- The part of the books that says what the counters show and which nodes are free. -/
structure Tallied (free : List Nat) (outside : Nat → Nat) (pool : Pool levels Body) : Prop where
  counter : ∀ slot < pool.size, pool.counterOf slot =
    2 * (outside slot + pool.backCount slot) + if slot ∈ free then 1 else 0
  inside : ∀ slot ∈ free, slot < pool.size
  distinct : free.Nodup
  chain : pool.FreeChain pool.freeHead free
  backInside : ∀ slot < pool.size, ∀ other, pool.back? slot = some other → other < pool.size

/-- With fewer counts than these on a node, its counter fits a word and there is room to spare. -/
def countLimit : Nat := UInt64.size / 4

/-- A counter that shows fewer counts than the limit fits a word, also while one count more is
taken. -/
theorem counter_fits {counter counts : Nat} {isFree : Prop} [Decidable isFree]
    (shown : counter = 2 * counts + if isFree then 1 else 0) (few : counts < countLimit) :
    counter + 2 < UInt64.size := by
  have bit : (if isFree then 1 else 0) ≤ 1 := by split <;> decide
  have room : 2 * countLimit + 2 ≤ UInt64.size := by decide
  omega

variable {pool after : Pool levels Body}

theorem FreeChain.congr {link : Link} {free : List Nat} (chain : pool.FreeChain link free)
    (same : ∀ slot ∈ free, after.linkOf slot 0 = pool.linkOf slot 0) :
    after.FreeChain link free := by
  induction free generalizing link with
  | nil => exact chain
  | cons slot rest inductionHypothesis =>
    refine ⟨chain.1, ?_⟩
    rw [same slot List.mem_cons_self]
    exact inductionHypothesis chain.2 fun other member => same other (List.mem_cons_of_mem _ member)

theorem backCount_congr (size : after.size = pool.size)
    (same : ∀ slot, after.back? slot = pool.back? slot) (slot : Nat) :
    after.backCount slot = pool.backCount slot := by
  unfold backCount
  rw [size]
  refine congrArg (fun test => (List.range pool.size).countP test) (funext fun other => ?_)
  rw [same]

/-- Two tests that agree except at one member count alike except there. -/
private theorem countP_add_eq {members : List Nat} (distinct : members.Nodup) {slot : Nat}
    (member : slot ∈ members) {first second : Nat → Bool}
    (same : ∀ other, other ≠ slot → first other = second other) :
    members.countP first + (if second slot then 1 else 0) =
      members.countP second + (if first slot then 1 else 0) := by
  induction members with
  | nil => cases member
  | cons head rest inductionHypothesis =>
    obtain ⟨headNew, restDistinct⟩ := List.nodup_cons.mp distinct
    rw [List.countP_cons, List.countP_cons]
    by_cases here : head = slot
    · subst here
      have rests : rest.countP first = rest.countP second :=
        List.countP_congr fun other inRest => by
          rw [same other fun equal => headNew (equal ▸ inRest)]
      omega
    · have inRest := (List.mem_cons.mp member).resolve_left (Ne.symm here)
      have rests := inductionHypothesis restDistinct inRest
      rw [same head here]
      omega

/-- A change of one reference back shows in the counts of the slots that it named and names. -/
theorem backCount_change {slot : Nat} (inside : slot < pool.size) (size : after.size = pool.size)
    (same : ∀ other, other ≠ slot → after.back? other = pool.back? other) (target : Nat) :
    after.backCount target + (if pool.back? slot = some target then 1 else 0) =
      pool.backCount target + (if after.back? slot = some target then 1 else 0) := by
  unfold backCount
  rw [size]
  have agree : ∀ other, other ≠ slot → decide (after.back? other = some target) =
      decide (pool.back? other = some target) := fun other apart => by rw [same other apart]
  have counted := countP_add_eq List.nodup_range (List.mem_range.mpr inside) agree
  simpa only [decide_eq_true_eq] using counted

/-- References back that are also there before count for no more than before. -/
theorem backCount_le (size : after.size = pool.size)
    (fewer : ∀ other target, after.back? other = some target → pool.back? other = some target)
    (slot : Nat) : after.backCount slot ≤ pool.backCount slot := by
  unfold backCount
  rw [size]
  refine List.countP_mono_left fun other _ names => ?_
  rw [decide_eq_true_eq] at names ⊢
  exact fewer other slot names

namespace Tallied

variable {free : List Nat} {outside : Nat → Nat}

theorem length_le (tallied : Tallied free outside pool) : free.length ≤ pool.size :=
  length_le_of_forall_lt tallied.distinct tallied.inside

/-- A slot whose counter is even is not free. -/
theorem not_free_iff (tallied : Tallied free outside pool) {slot : Nat}
    (inside : slot < pool.size) : slot ∉ free ↔ pool.counterOf slot % 2 = 0 := by
  rw [tallied.counter slot inside]
  by_cases member : slot ∈ free
  · rw [if_pos member]
    exact iff_of_false (fun absent => absent member) (by omega)
  · rw [if_neg member]
    exact iff_of_true member (by omega)

/-- A count that is held outside shows in the counter. -/
theorem two_le_counter (tallied : Tallied free (addCount outside slot) pool)
    (inside : slot < pool.size) : 2 ≤ pool.counterOf slot := by
  rw [tallied.counter slot inside, addCount_self]
  omega

end Tallied

namespace Balanced

variable {free : List Nat} {outside : Nat → Nat}

theorem tallied (balanced : Balanced free outside pool) : Tallied free outside pool :=
  ⟨balanced.counter, balanced.inside, balanced.distinct, balanced.chain, balanced.backInside⟩

theorem congr {others : Nat → Nat} (balanced : Balanced free outside pool)
    (same : ∀ slot < pool.size, others slot = outside slot) : Balanced free others pool :=
  { balanced with
    counter := fun slot inside => by rw [same slot inside]; exact balanced.counter slot inside
    held := fun slot inside => by
      rw [same slot inside]
      exact balanced.held slot inside }

/-- A change that leaves free nodes and references back alone, when the counters agree with the
counts that are then held outside. -/
theorem recounted (balanced : Balanced free outside pool) {others : Nat → Nat}
    (size : after.size = pool.size) (freeHead : after.freeHead = pool.freeHead)
    (links : ∀ slot ∈ free, ∀ level, after.linkOf slot level = pool.linkOf slot level)
    (back : ∀ slot, after.back? slot = pool.back? slot)
    (counter : ∀ slot < pool.size, after.counterOf slot =
      2 * (others slot + pool.backCount slot) + if slot ∈ free then 1 else 0)
    (held : ∀ slot < pool.size, slot ∉ free → 0 < others slot + pool.backCount slot) :
    Balanced free others after := by
  have backs := backCount_congr size back
  refine ⟨?counter, ?held, ?inside, balanced.distinct, ?chain, ?bare, ?blank, ?backInside⟩
  case counter =>
    intro slot inside
    rw [size] at inside
    rw [counter slot inside, backs]
  case held =>
    intro slot inside occupied
    rw [size] at inside
    rw [backs]
    exact held slot inside occupied
  case inside =>
    intro slot member
    rw [size]
    exact balanced.inside slot member
  case chain =>
    rw [freeHead]
    exact balanced.chain.congr fun slot member => links slot member 0
  case bare =>
    intro slot member
    rw [back]
    exact balanced.bare slot member
  case blank =>
    intro slot member level above
    rw [links slot member]
    exact balanced.blank slot member level above
  case backInside =>
    intro slot inside other names
    rw [size] at inside ⊢
    rw [back] at names
    exact balanced.backInside slot inside other names

/-- A change that leaves free nodes and references back alone, and takes further counts. -/
theorem of_frame (balanced : Balanced free outside pool) (extra : Nat → Nat)
    (size : after.size = pool.size) (freeHead : after.freeHead = pool.freeHead)
    (links : ∀ slot ∈ free, ∀ level, after.linkOf slot level = pool.linkOf slot level)
    (back : ∀ slot, after.back? slot = pool.back? slot)
    (counter : ∀ slot < pool.size, after.counterOf slot = pool.counterOf slot + 2 * extra slot) :
    Balanced free (fun slot => outside slot + extra slot) after := by
  refine balanced.recounted size freeHead links back (fun slot inside => ?_)
    fun slot inside occupied => ?_
  · rw [counter slot inside, balanced.counter slot inside]
    omega
  · have before := balanced.held slot inside occupied
    omega

theorem length_le (balanced : Balanced free outside pool) : free.length ≤ pool.size :=
  balanced.tallied.length_le

/-- A slot whose counter is even is not free. -/
theorem not_free_iff (balanced : Balanced free outside pool) {slot : Nat}
    (inside : slot < pool.size) : slot ∉ free ↔ pool.counterOf slot % 2 = 0 :=
  balanced.tallied.not_free_iff inside

/-- The slots that are not free have two at least in their counters. -/
theorem two_le_counter (balanced : Balanced free outside pool) {slot : Nat}
    (inside : slot < pool.size) (absent : slot ∉ free) : 2 ≤ pool.counterOf slot := by
  have held := balanced.held slot inside absent
  rw [balanced.counter slot inside]
  omega

/-- A count may be taken on any slot, a free one too. -/
theorem retained (balanced : Balanced free outside pool) {slot : Nat} (inside : slot < pool.size) :
    Balanced free (addCount outside slot) (pool.retained slot) := by
  refine (balanced.of_frame (fun other => if other = slot then 1 else 0) (size_recount _ _) rfl
    (fun other _ level => linkOf_recount _ _ other level) (fun other => ?_) fun other _ => ?_).congr
    fun _ _ => rfl
  · exact back?_recount _ _ other
  · rw [counterOf_recount _ _ inside]
    split
    next same => rw [same]
    next => rfl

end Balanced

/-! ### The free list -/

theorem chainLength_eq (hasLevel : 0 < levels) {free : List Nat}
    (inside : ∀ slot ∈ free, slot < pool.size) (limit : Nat) (enough : free.length ≤ limit)
    {link : Link} (chain : pool.FreeChain link free) :
    pool.chainLength limit link = .ok free.length := by
  induction free generalizing link limit with
  | nil =>
    rw [show link = Link.nil from chain]
    exact chainLength_of_none Link.slot?_nil limit
  | cons slot rest inductionHypothesis =>
    have slotInside := inside slot List.mem_cons_self
    cases limit with
    | zero => exact absurd enough (by simp)
    | succ limit =>
      rw [chain.1, chainLength_of_slot? (Link.slot?_ofSlot (size_lt_slotLimit slotInside))
          (link?_eq_some slotInside hasLevel),
        inductionHypothesis (fun other member => inside other (List.mem_cons_of_mem _ member))
          limit (Nat.le_of_succ_le_succ enough) chain.2]
      rfl

/-- The figure of free nodes is the length of the free list. -/
theorem available_eq (hasLevel : 0 < levels) {free : List Nat} {outside : Nat → Nat}
    (balanced : Balanced free outside pool) : pool.available = .ok free.length :=
  chainLength_eq hasLevel balanced.inside pool.size balanced.length_le balanced.chain

/-- The pool with its free list starting elsewhere. -/
def withFreeHead (pool : Pool levels Body) (link : Link) : Pool levels Body :=
  { pool with freeHead := link }

omit [Inhabited Body] in
@[simp] theorem size_withFreeHead (link : Link) : (pool.withFreeHead link).size = pool.size := rfl

@[simp] theorem linkOf_withFreeHead (link : Link) (other level : Nat) :
    (pool.withFreeHead link).linkOf other level = pool.linkOf other level := rfl

@[simp] theorem bodyOf_withFreeHead (link : Link) (other : Nat) :
    (pool.withFreeHead link).bodyOf other = pool.bodyOf other := rfl

@[simp] theorem backOf_withFreeHead (link : Link) (other : Nat) :
    (pool.withFreeHead link).backOf other = pool.backOf other := rfl

@[simp] theorem counterOf_withFreeHead (link : Link) (other : Nat) :
    (pool.withFreeHead link).counterOf other = pool.counterOf other := rfl

omit [Inhabited Body] in
theorem swapFreeHead_ends {expected replacement : Link}
    {condition : Bool → Pool levels Body → Prop} (found : pool.freeHead = expected)
    (holds : condition true (pool.withFreeHead replacement)) :
    Ends (swapFreeHead expected replacement) pool condition := by
  refine Ends.of_eq ?_ holds
  unfold swapFreeHead
  rw [if_pos found]
  rfl

/-! ### Reclaiming a node -/

/-- The pool with a claimed node put onto the free list. -/
def reclaimed (pool : Pool levels Body) (slot : Nat) : Pool levels Body :=
  { pool.modify slot (·.freed pool.freeHead) with freeHead := Link.ofSlot slot }

section Reclaimed

variable {slot : Nat}

omit [Inhabited Body] in
theorem size_reclaimed (slot : Nat) : (pool.reclaimed slot).size = pool.size :=
  size_modify pool slot _

theorem nodeOf_reclaimed (inside : slot < pool.size) (other : Nat) :
    (pool.reclaimed slot).nodeOf other =
      if other = slot then (pool.nodeOf slot).freed pool.freeHead else pool.nodeOf other :=
  nodeOf_modify pool inside _ other

theorem linkOf_reclaimed (hasLevel : 0 < levels) (inside : slot < pool.size) (other level : Nat) :
    (pool.reclaimed slot).linkOf other level =
      if other = slot then (if level = 0 then pool.freeHead else Link.nil)
      else pool.linkOf other level := by
  unfold linkOf
  rw [nodeOf_reclaimed inside]
  by_cases same : other = slot
  · rw [if_pos same, if_pos same]
    show ((Node.freeLinks levels pool.freeHead)[level]?).getD Link.nil = _
    unfold Node.freeLinks
    by_cases bottom : level = 0
    · subst bottom
      rw [if_pos rfl, Vector.getElem?_setIfInBounds_self_of_lt hasLevel]
      rfl
    · rw [if_neg bottom, Vector.getElem?_setIfInBounds_ne fun same => bottom same.symm,
        Vector.getElem?_replicate]
      split <;> rfl
  · rw [if_neg same, if_neg same]

theorem bodyOf_reclaimed (inside : slot < pool.size) (other : Nat) :
    (pool.reclaimed slot).bodyOf other = pool.bodyOf other := by
  unfold bodyOf
  rw [nodeOf_reclaimed inside]
  split
  next same => rw [same]; rfl
  next => rfl

theorem counterOf_reclaimed (inside : slot < pool.size) (other : Nat) :
    (pool.reclaimed slot).counterOf other = if other = slot then 1 else pool.counterOf other := by
  unfold counterOf
  rw [nodeOf_reclaimed inside]
  split <;> rfl

theorem backOf_reclaimed (inside : slot < pool.size) (other : Nat) :
    (pool.reclaimed slot).backOf other =
      if other = slot then (pool.backOf slot).map fun _ => Link.nil else pool.backOf other := by
  unfold backOf
  rw [nodeOf_reclaimed inside]
  split <;> rfl

theorem back?_reclaimed (inside : slot < pool.size) (other : Nat) :
    (pool.reclaimed slot).back? other = if other = slot then none else pool.back? other := by
  unfold back?
  rw [backOf_reclaimed inside]
  split
  next =>
    cases pool.backOf slot with
    | none => rfl
    | some link => rw [Option.map_some, Option.bind_some, Link.slot?_nil]
  next => rfl

omit [Inhabited Body] in
/-- The counter of a node does not matter once the node is claimed. -/
theorem reclaimed_recount (slot counter : Nat) :
    (pool.recount slot counter).reclaimed slot = pool.reclaimed slot := by
  have same : (pool.nodes.modify slot (·.setCounter counter)).modify slot (·.freed pool.freeHead) =
      pool.nodes.modify slot (·.freed pool.freeHead) := by
    refine Array.ext (by simp) fun index _ _ => ?_
    simp only [Array.getElem_modify]
    split <;> rfl
  unfold reclaimed recount modify
  simp only [same]

theorem reclaim_ends {condition : Option Nat → Pool levels Body → Prop}
    (inside : slot < pool.size) (holds : condition (pool.back? slot) (pool.reclaimed slot)) :
    Ends (reclaim slot) pool condition := by
  unfold reclaim
  refine Ends.bind (nodeAt_ends inside (Ends.bind (Ends.reading rfl ?_)))
  refine Ends.bind (change_ends inside (Ends.bind (linkTo_ends (by rwa [size_modify]) ?_)))
  refine Ends.bind (swapFreeHead_ends (freeHead_modify _ _ _) ?_)
  exact Ends.pure holds

end Reclaimed

/-! ### Giving up a count -/

/-- Some nodes were put onto the free list, and all others are as they were but for counters. -/
structure Returned (freed : List Nat) (pool after : Pool levels Body) : Prop where
  size : after.size = pool.size
  body : ∀ slot, after.bodyOf slot = pool.bodyOf slot
  links : ∀ slot, slot ∉ freed → ∀ level, after.linkOf slot level = pool.linkOf slot level
  back : ∀ slot, slot ∉ freed → after.backOf slot = pool.backOf slot
  /-- Kinds of node with a reference back keep it, -/
  backThere : ∀ slot, (after.backOf slot).isSome = (pool.backOf slot).isSome
  /-- and it names nothing new. -/
  fewer : ∀ slot target, after.back? slot = some target → pool.back? slot = some target

/-- A count was given up. The nodes that were put onto the free list because of that are held by
nobody any more. -/
structure Dropped (free : List Nat) (outside : Nat → Nat) (freed : List Nat)
    (pool after : Pool levels Body) : Prop extends Returned freed pool after where
  balanced : Balanced (freed ++ free) outside after
  idle : ∀ slot ∈ freed, outside slot + after.backCount slot = 0

section Releasing

variable {free freed : List Nat} {outside : Nat → Nat} {slot : Nat}

theorem Returned.back?_of_not_mem (returned : Returned freed pool after) (kept : slot ∉ freed) :
    after.back? slot = pool.back? slot :=
  back?_congr (returned.back slot kept)

/-- Nodes may be put onto the free list one after another. -/
theorem Returned.trans {middle : Pool levels Body} {early late : List Nat}
    (first : Returned early pool middle) (second : Returned late middle after) :
    Returned (late ++ early) pool after := by
  refine ⟨second.size.trans first.size, fun slot => (second.body slot).trans (first.body slot),
    ?links, ?back, fun slot => (second.backThere slot).trans (first.backThere slot),
    fun slot target names => first.fewer slot target (second.fewer slot target names)⟩
  case links =>
    intro slot absent level
    obtain ⟨notLate, notEarly⟩ := not_or.mp (List.mem_append.not.mp absent)
    rw [second.links slot notLate, first.links slot notEarly]
  case back =>
    intro slot absent
    obtain ⟨notLate, notEarly⟩ := not_or.mp (List.mem_append.not.mp absent)
    rw [second.back slot notLate, first.back slot notEarly]

theorem returned_recount (slot counter : Nat) : Returned [] pool (pool.recount slot counter) where
  size := size_recount slot counter
  body := bodyOf_recount slot counter
  links other _ level := linkOf_recount slot counter other level
  back other _ := backOf_recount slot counter other
  backThere other := by rw [backOf_recount]
  fewer other target names := by rwa [back?_recount] at names

theorem Dropped.trans {middle : Pool levels Body} {early late : List Nat} {rest : Nat → Nat}
    (first : Dropped free rest early pool middle)
    (second : Dropped (early ++ free) outside late middle after)
    (less : ∀ slot, outside slot ≤ rest slot) :
    Dropped free outside (late ++ early) pool after := by
  refine ⟨first.toReturned.trans second.toReturned, ?balanced, fun slot member => ?idle⟩
  case balanced =>
    rw [List.append_assoc]
    exact second.balanced
  case idle =>
    rcases List.mem_append.mp member with inLate | inEarly
    · exact second.idle slot inLate
    · have none := first.idle slot inEarly
      have fewerBacks := backCount_le second.size second.fewer slot
      have fewer := less slot
      omega

/-- A count that is not the last is taken off the counter. So is a count on a free node. -/
theorem Balanced.surrendered (balanced : Balanced free (addCount outside slot) pool)
    (inside : slot < pool.size) (more : pool.counterOf slot ≠ 2) :
    Dropped free outside [] pool (pool.surrendered slot) := by
  have counted := balanced.counter slot inside
  rw [addCount_self] at counted
  have back? : ∀ other, (pool.surrendered slot).back? other = pool.back? other :=
    back?_recount slot _
  refine ⟨returned_recount slot _, balanced.recounted (size_recount _ _) (freeHead_recount _ _)
      (fun other _ level => linkOf_recount _ _ other level) back? ?counters ?held, nofun⟩
  case counters =>
    intro other otherInside
    rw [counterOf_recount _ _ inside]
    have otherCounted := balanced.counter other otherInside
    unfold addCount at otherCounted
    split
    next same =>
      subst same
      omega
    next apart =>
      rw [if_neg apart] at otherCounted
      omega
  case held =>
    intro other otherInside occupied
    have before := balanced.held other otherInside occupied
    unfold addCount at before
    by_cases same : other = slot
    · subst same
      rw [if_neg occupied] at counted
      omega
    · rwa [if_neg same] at before

/-- A node that is reclaimed gives up its reference back, and no other node does. -/
theorem backCount_reclaimed (inside : slot < pool.size) (target : Nat) :
    (pool.reclaimed slot).backCount target + (if pool.back? slot = some target then 1 else 0) =
      pool.backCount target := by
  have back? := back?_reclaimed inside
  have changed := backCount_change inside (size_reclaimed slot)
    (fun other apart => by rw [back?, if_neg apart]) target
  rw [changed, back?, if_pos rfl]
  simp

theorem returned_reclaimed (hasLevel : 0 < levels) (inside : slot < pool.size) :
    Returned [slot] pool (pool.reclaimed slot) := by
  refine ⟨size_reclaimed slot, bodyOf_reclaimed inside, ?links, ?back, ?backThere, ?fewer⟩
  case links =>
    intro other apart level
    rw [linkOf_reclaimed hasLevel inside, if_neg (by simpa using apart)]
  case back =>
    intro other apart
    rw [backOf_reclaimed inside, if_neg (by simpa using apart)]
  case backThere =>
    intro other
    rw [backOf_reclaimed inside]
    split
    next same => rw [same, Option.isSome_map]
    next => rfl
  case fewer =>
    intro other target names
    rw [back?_reclaimed inside] at names
    split at names
    next => exact absurd names (by simp)
    next => exact names

/-- A node that is reclaimed comes first on the free list. -/
theorem FreeChain.reclaimed (hasLevel : 0 < levels) (chain : pool.FreeChain pool.freeHead free)
    (inside : slot < pool.size) (absent : slot ∉ free) :
    (pool.reclaimed slot).FreeChain (pool.reclaimed slot).freeHead (slot :: free) := by
  refine ⟨rfl, ?_⟩
  rw [linkOf_reclaimed hasLevel inside, if_pos rfl, if_pos rfl]
  refine chain.congr fun other member => ?_
  rw [linkOf_reclaimed hasLevel inside, if_neg]
  rintro rfl
  exact absent member

/-- The last count on a node goes along with the node; the count that the node held on another one
is then outside. -/
theorem Tallied.reclaimed (hasLevel : 0 < levels)
    (tallied : Tallied free (addCount outside slot) pool) (inside : slot < pool.size)
    (last : pool.counterOf slot = 2) {rest : Nat → Nat}
    (handed : ∀ target, rest target =
      outside target + if pool.back? slot = some target then 1 else 0) :
    Tallied (slot :: free) rest (pool.reclaimed slot) := by
  have counted := tallied.counter slot inside
  have absent : slot ∉ free := (tallied.not_free_iff inside).mpr (by rw [last])
  rw [addCount_self, if_neg absent, last] at counted
  refine ⟨?counters, ?inside, List.nodup_cons.mpr ⟨absent, tallied.distinct⟩,
    tallied.chain.reclaimed hasLevel inside absent, ?backInside⟩
  case counters =>
    intro other otherInside
    rw [size_reclaimed] at otherInside
    have otherCounted := tallied.counter other otherInside
    have otherBacks := backCount_reclaimed inside other
    rw [counterOf_reclaimed inside, handed]
    unfold addCount at otherCounted
    by_cases same : other = slot
    · subst same
      rw [if_pos rfl, if_pos List.mem_cons_self]
      omega
    · have memberIff : other ∈ slot :: free ↔ other ∈ free := by simp [same]
      rw [if_neg same] at otherCounted ⊢
      simp only [memberIff]
      omega
  case inside =>
    intro other member
    rw [size_reclaimed]
    rcases List.mem_cons.mp member with rfl | inFree
    · exact inside
    · exact tallied.inside other inFree
  case backInside =>
    intro other otherInside target names
    rw [size_reclaimed] at otherInside ⊢
    rw [back?_reclaimed inside] at names
    split at names
    next => exact absurd names (by simp)
    next => exact tallied.backInside other otherInside target names

theorem Balanced.reclaimed (hasLevel : 0 < levels)
    (balanced : Balanced free (addCount outside slot) pool) (inside : slot < pool.size)
    (last : pool.counterOf slot = 2) {rest : Nat → Nat}
    (handed : ∀ target, rest target =
      outside target + if pool.back? slot = some target then 1 else 0) :
    Dropped free rest [slot] pool (pool.reclaimed slot) := by
  have counted := balanced.counter slot inside
  have absent : slot ∉ free := (balanced.not_free_iff inside).mpr (by rw [last])
  rw [addCount_self, if_neg absent, last] at counted
  have back? := back?_reclaimed inside
  have backs := backCount_reclaimed inside
  have slotBacks := backs slot
  have tallied := balanced.tallied.reclaimed hasLevel inside last handed
  refine ⟨returned_reclaimed hasLevel inside, ⟨tallied.counter, ?held, tallied.inside,
    tallied.distinct, tallied.chain, ?bare, ?blank, tallied.backInside⟩, ?idle⟩
  case held =>
    intro other otherInside occupied
    rw [size_reclaimed] at otherInside
    rw [List.singleton_append, List.mem_cons, not_or] at occupied
    have before := balanced.held other otherInside occupied.2
    have otherBacks := backs other
    rw [handed]
    unfold addCount at before
    rw [if_neg occupied.1] at before
    omega
  case idle =>
    intro other member
    rw [List.mem_singleton.mp member, handed]
    omega
  case bare =>
    intro other member
    rw [back?]
    rcases List.mem_cons.mp member with rfl | inFree
    · exact if_pos rfl
    · split
      next => rfl
      next => exact balanced.bare other inFree
  case blank =>
    intro other member level above
    rw [linkOf_reclaimed hasLevel inside]
    rcases List.mem_cons.mp member with rfl | inFree
    · rw [if_pos rfl, if_neg (Nat.pos_iff_ne_zero.mp above)]
    · rw [if_neg fun same : other = slot => absent (same ▸ inFree)]
      exact balanced.blank other inFree level above

/-- The last count on a node is given up along with the node, and then the count that the node held
on another one. -/
theorem releaseChain_ends_of_last {condition : Unit → Pool levels Body → Prop} (bound : Nat)
    (inside : slot < pool.size) (last : pool.counterOf slot = 2)
    (goal : Ends ((pool.back? slot).elim (pure ()) (releaseChain bound)) (pool.reclaimed slot)
      condition) : Ends (releaseChain (bound + 1) slot) pool condition := by
  have back : (pool.recount slot 1).back? slot = pool.back? slot := back?_recount slot 1 slot
  unfold releaseChain
  refine Ends.bind (surrender_ends_of_last inside last ?_)
  rw [if_pos rfl]
  refine Ends.bind (reclaim_ends (by rwa [size_recount]) ?_)
  rw [reclaimed_recount, back]
  cases names : pool.back? slot with
  | none =>
    rw [names] at goal
    exact goal
  | some next =>
    rw [names] at goal
    exact goal

/-- Giving up a count, and in turn the counts held by nodes reclaimed because of that. -/
theorem Balanced.releaseChain_ends (hasLevel : 0 < levels) (bound : Nat) {free : List Nat}
    {slot : Nat} {pool : Pool levels Body}
    (balanced : Balanced free (addCount outside slot) pool) (inside : slot < pool.size)
    (enough : pool.size < bound + free.length) :
    Ends (releaseChain bound slot) pool fun _ after =>
      ∃ freed, Dropped free outside freed pool after := by
  induction bound generalizing free slot pool with
  | zero =>
    have short := balanced.length_le
    omega
  | succ bound inductionHypothesis =>
    have counted := balanced.tallied.two_le_counter inside
    by_cases last : pool.counterOf slot = 2
    · refine releaseChain_ends_of_last bound inside last ?_
      cases names : pool.back? slot with
      | none =>
        exact Ends.pure ⟨[slot], balanced.reclaimed hasLevel inside last fun target => by
          rw [names]; simp⟩
      | some next =>
        have first : Dropped free (addCount outside next) [slot] pool (pool.reclaimed slot) :=
          balanced.reclaimed hasLevel inside last fun target => by
            unfold addCount
            rw [names]
            simp only [Option.some.injEq, eq_comm]
        refine (inductionHypothesis first.balanced
          (by rw [size_reclaimed]; exact balanced.backInside slot inside next names)
          (by rw [size_reclaimed, List.singleton_append, List.length_cons]; omega)).imp
          fun _ after dropped => ?_
        obtain ⟨freed, second⟩ := dropped
        exact ⟨freed ++ [slot], first.trans second fun other => Nat.le_add_right _ _⟩
    · exact releaseChain_ends_of_lt bound inside (Nat.lt_of_le_of_ne counted (Ne.symm last))
        ⟨[], balanced.surrendered inside last⟩

/-- Giving up a count. -/
theorem Balanced.release_ends (hasLevel : 0 < levels)
    (balanced : Balanced free (addCount outside slot) pool) (inside : slot < pool.size) :
    Ends (release slot) pool fun _ after => ∃ freed, Dropped free outside freed pool after :=
  Ends.onStart (balanced.releaseChain_ends hasLevel (pool.size + 1) inside (by omega))

end Releasing

/-! ### Changing a reference back -/

section Backs

variable {free : List Nat} {outside : Nat → Nat} {slot target : Nat}

/-- The counts on a slot are as many when one that was held outside is held by a reference back. -/
theorem addCount_add_backCount (outside : Nat → Nat) (inside : slot < pool.size)
    (targetInside : target < pool.size) (there : (pool.backOf slot).isSome = true)
    (nowhere : pool.back? slot = none) (other : Nat) :
    addCount outside target other + pool.backCount other =
      outside other + (pool.withBack slot (Link.ofSlot target)).backCount other := by
  have back? := back?_withBack inside targetInside there
  have changed := backCount_change inside (size_withBack slot (Link.ofSlot target))
    (fun other apart => by rw [back?, if_neg apart]) other
  rw [nowhere, back?, if_pos rfl, if_neg (by simp)] at changed
  simp only [Option.some.injEq, eq_comm (a := target)] at changed
  unfold addCount
  omega

/-- A count held outside turns into one that a reference back holds. -/
theorem Balanced.withBack (balanced : Balanced free (addCount outside target) pool)
    (inside : slot < pool.size) (targetInside : target < pool.size) (occupied : slot ∉ free)
    (there : (pool.backOf slot).isSome = true) (nowhere : pool.back? slot = none) :
    Balanced free outside (pool.withBack slot (Link.ofSlot target)) := by
  have size : (pool.withBack slot (Link.ofSlot target)).size = pool.size := size_withBack slot _
  have back? := back?_withBack inside targetInside there
  have moved := addCount_add_backCount outside inside targetInside there nowhere
  refine ⟨?counters, ?held, ?inside, balanced.distinct, ?chain, ?bare, ?blank, ?backInside⟩
  case counters =>
    intro other otherInside
    rw [size] at otherInside
    rw [counterOf_withBack inside, balanced.counter other otherInside, moved]
  case held =>
    intro other otherInside
    rw [size] at otherInside
    rw [← moved]
    exact balanced.held other otherInside
  case inside =>
    intro other member
    rw [size]
    exact balanced.inside other member
  case chain => exact balanced.chain.congr fun other _ => linkOf_withBack inside other 0
  case bare =>
    intro other member
    rw [back?, if_neg fun same : other = slot => occupied (same ▸ member)]
    exact balanced.bare other member
  case blank =>
    intro other member level above
    rw [linkOf_withBack inside]
    exact balanced.blank other member level above
  case backInside =>
    intro other otherInside found names
    rw [size] at otherInside ⊢
    rw [back?] at names
    split at names
    next => exact Option.some.inj names ▸ targetInside
    next => exact balanced.backInside other otherInside found names

end Backs

/-! ### Allocation -/

section Allocation

variable {free : List Nat} {outside : Nat → Nat} {slot : Nat}

/-- The first node came off the free list, with nil links. -/
structure Taken (slot : Nat) (pool after : Pool levels Body) : Prop where
  size : after.size = pool.size
  body : ∀ other, after.bodyOf other = pool.bodyOf other
  back : ∀ other, after.backOf other = pool.backOf other
  links : ∀ other level, after.linkOf other level =
    if other = slot then Link.nil else pool.linkOf other level

theorem Taken.backCount (taken : Taken slot pool after) (other : Nat) :
    after.backCount other = pool.backCount other :=
  backCount_congr taken.size (fun other => back?_congr (taken.back other)) other

/-- The node that came off comes with one count more. -/
private theorem Balanced.taken {rest : List Nat} (balanced : Balanced (slot :: rest) outside pool)
    (taken : Taken slot pool after) (freeHead : after.freeHead = pool.linkOf slot 0)
    (counter : ∀ other, after.counterOf other =
      if other = slot then pool.counterOf slot + 1 else pool.counterOf other) :
    Balanced rest (addCount outside slot) after := by
  obtain ⟨slotNew, restDistinct⟩ := List.nodup_cons.mp balanced.distinct
  have size := taken.size
  have backs := taken.backCount
  have back? : ∀ other, after.back? other = pool.back? other := fun other =>
    back?_congr (taken.back other)
  have restLinks : ∀ other ∈ rest, ∀ level, after.linkOf other level = pool.linkOf other level := by
    intro other member level
    rw [taken.links, if_neg fun same : other = slot => slotNew (same ▸ member)]
  refine ⟨?counters, ?held, ?inside, restDistinct, ?chain, ?bare, ?blank, ?backInside⟩
  case counters =>
    intro other otherInside
    rw [size] at otherInside
    have counted := balanced.counter other otherInside
    rw [counter, backs]
    unfold addCount
    by_cases same : other = slot
    · subst same
      rw [if_pos rfl, if_pos rfl, if_neg slotNew, counted, if_pos List.mem_cons_self]
      omega
    · have memberIff : other ∈ slot :: rest ↔ other ∈ rest := by simp [same]
      rw [if_neg same, if_neg same]
      simp only [memberIff] at counted
      omega
  case held =>
    intro other otherInside occupied
    rw [size] at otherInside
    rw [backs]
    unfold addCount
    by_cases same : other = slot
    · rw [if_pos same]
      omega
    · rw [if_neg same]
      exact balanced.held other otherInside (List.not_mem_cons_of_ne_of_not_mem same occupied)
  case inside =>
    intro other member
    rw [size]
    exact balanced.inside other (List.mem_cons_of_mem _ member)
  case chain =>
    rw [freeHead]
    exact balanced.chain.2.congr fun other member => restLinks other member 0
  case bare =>
    intro other member
    rw [back?]
    exact balanced.bare other (List.mem_cons_of_mem _ member)
  case blank =>
    intro other member level above
    rw [restLinks other member]
    exact balanced.blank other (List.mem_cons_of_mem _ member) level above
  case backInside =>
    intro other otherInside target names
    rw [size] at otherInside ⊢
    rw [back?] at names
    exact balanced.backInside other otherInside target names

/-- The claim of a node is taken off its counter. -/
theorem unclaim_ends {condition : Unit → Pool levels Body → Prop} (inside : slot < pool.size)
    (claimed : pool.counterOf slot % 2 ≠ 0)
    (holds : condition () (pool.recount slot (pool.counterOf slot - 1))) :
    Ends (unclaim slot) pool condition := by
  unfold unclaim
  refine Ends.bind (nodeAt_ends inside ?_)
  rw [if_neg (show ¬ (pool.nodeOf slot).counter % 2 = 0 from claimed)]
  exact change_ends inside holds

/-- Allocation takes the first node off a free list that is not empty. -/
theorem Balanced.allocate_ends (hasLevel : 0 < levels) {rest : List Nat}
    (balanced : Balanced (slot :: rest) outside pool)
    {condition : Except PoolError Nat → Pool levels Body → Prop}
    (holds : ∀ after, Taken slot pool after → Balanced rest (addCount outside slot) after →
      condition (.ok slot) after) :
    Ends allocate pool condition := by
  have inside := balanced.inside slot List.mem_cons_self
  have limit := size_lt_slotLimit inside
  have claimed : pool.counterOf slot % 2 = 1 := by
    rw [balanced.counter slot inside, if_pos List.mem_cons_self]
    omega
  have head : pool.freeHead = Link.ofSlot slot := balanced.chain.1
  unfold allocate
  refine Ends.bind (Ends.reading rfl ?_)
  rw [head]
  refine Ends.bind (follow_ends (Link.isMarked_ofSlot limit) (Link.slot?_ofSlot limit) inside ?_)
  refine Ends.bind (linkAt_ends (by rwa [size_recount]) hasLevel ?_)
  refine Ends.bind (linkTo_ends (by rwa [size_recount]) ?_)
  refine Ends.bind (swapFreeHead_ends head ?_)
  have threadedInside : slot < ((pool.retained slot).withFreeHead
      ((pool.retained slot).linkOf slot 0)).size := by
    rwa [size_withFreeHead, size_recount]
  have counter : ((pool.retained slot).withFreeHead ((pool.retained slot).linkOf slot 0)).counterOf
      slot = pool.counterOf slot + 2 := by
    rw [counterOf_withFreeHead, counterOf_recount _ _ inside, if_pos rfl]
  refine Ends.bind (unclaim_ends threadedInside (by rw [counter]; omega) ?_)
  rw [counter]
  have taken : Taken slot pool ((((pool.retained slot).withFreeHead
      ((pool.retained slot).linkOf slot 0)).recount slot (pool.counterOf slot + 2 - 1)).withLink
        slot 0 Link.nil) := by
    refine ⟨?_, fun other => ?_, fun other => ?_, fun other level => ?_⟩
    · rw [size_withLink, size_recount, size_withFreeHead, size_recount]
    · rw [bodyOf_withLink (by rwa [size_recount]), bodyOf_recount, bodyOf_withFreeHead,
        bodyOf_recount]
    · rw [backOf_withLink (by rwa [size_recount]), backOf_recount, backOf_withFreeHead,
        backOf_recount]
    · rw [linkOf_withLink (by rwa [size_recount]) hasLevel, linkOf_recount, linkOf_withFreeHead,
        linkOf_recount]
      by_cases same : other = slot
      · subst same
        rw [if_pos rfl]
        by_cases bottom : level = 0
        · rw [if_pos ⟨rfl, bottom⟩]
        · rw [if_neg fun both => bottom both.2]
          exact balanced.blank other List.mem_cons_self level (Nat.pos_of_ne_zero bottom)
      · rw [if_neg same, if_neg fun both => same both.1]
  refine Ends.bind (setLink_ends (by rwa [size_recount, size_withFreeHead, size_recount]) hasLevel
    (Ends.pure (holds _ taken (balanced.taken taken (linkOf_recount _ _ slot 0) fun other => ?_))))
  rw [counterOf_withLink (by rwa [size_recount]), counterOf_recount _ _ threadedInside,
    counterOf_withFreeHead, counterOf_recount _ _ inside]
  split <;> rfl

/-- Allocation from an empty free list changes nothing. -/
theorem Balanced.allocate_ends_of_nil (balanced : Balanced [] outside pool)
    {condition : Except PoolError Nat → Pool levels Body → Prop}
    (holds : condition (.error (.exhausted pool.size)) pool) : Ends allocate pool condition := by
  have head : pool.freeHead = Link.nil := balanced.chain
  unfold allocate
  refine Ends.bind (Ends.reading rfl ?_)
  rw [head]
  refine Ends.bind ?_
  unfold follow
  rw [if_neg (by rw [Link.isMarked_nil]; exact Bool.false_ne_true), Link.slot?_nil]
  exact Ends.pure (Ends.reading rfl holds)

end Allocation

end Pool

end PooledContainers
