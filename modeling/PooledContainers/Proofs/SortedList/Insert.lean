/-
An insert. The node comes off the free list and is filled before it can be seen. The search for its
key finds the two neighbours between which it belongs, since no key of the line lies between theirs,
and one swing of the link of the first makes it visible. If the key is there, the node is given up
again and the free list is left with as many nodes as before.
-/

import PooledContainers.Proofs.SortedList.Extraction

namespace PooledContainers

namespace SortedList

open Line Operation Pool

variable {line free fresh : List Nat} {pending : Nat → Bool} {held : Nat → Nat}
  {pool after : Pool 1 Entry} {prev next node : Nat}

/-! ### Free nodes -/

/-- Without references back, none are counted. -/
theorem backCount_eq_zero (bare : ∀ slot, pool.back? slot = none) (slot : Nat) :
    pool.backCount slot = 0 := by
  unfold backCount
  refine List.countP_eq_zero.mpr fun other _ => ?_
  rw [bare, decide_eq_true_eq]
  exact nofun

namespace Consistent

/-- Free is what no handle holds and what has no place in the list. -/
theorem mem_free_iff (consistent : Consistent line free fresh pending held pool) {slot : Nat}
    (inside : slot < pool.size) : slot ∈ free ↔ held slot = 0 ∧ placeCount pending slot = 0 := by
  rw [consistent.accounted.free_iff slot inside, backCount_eq_zero consistent.bare]
  omega

/-- The counts that are held determine how many nodes are free. -/
theorem length_free_eq {laterLine laterFree laterFresh : List Nat}
    (consistent : Consistent line free fresh pending held pool)
    (later : Consistent laterLine laterFree laterFresh pending held after)
    (size : after.size = pool.size) : laterFree.length = free.length := by
  refine List.Perm.length_eq ((List.perm_ext_iff_of_nodup later.accounted.distinct
    consistent.accounted.distinct).mpr fun slot => ?_)
  by_cases inside : slot < pool.size
  · rw [consistent.mem_free_iff inside, later.mem_free_iff (size.symm ▸ inside)]
  · refine iff_of_false (fun member => inside ?_) fun member => inside ?_
    · exact size ▸ later.accounted.inside slot member
    · exact consistent.accounted.inside slot member

theorem available_eq (consistent : Consistent line free fresh pending held pool) :
    pool.available = .ok free.length :=
  Pool.available_eq Nat.zero_lt_one consistent.accounted.toBalanced

/-- No fresh node is left once all of them are free again. -/
theorem settled (consistent : Consistent line free fresh pending held pool)
    (given : ∀ slot ∈ fresh, slot ∈ free) : Consistent line free [] pending held pool :=
  { consistent with
    covered := fun slot inside => by
      rcases consistent.covered slot inside with inSpine | isFresh | others
      · exact Or.inl inSpine
      · exact Or.inr (Or.inr (Or.inl (given slot isFresh)))
      · exact Or.inr (Or.inr others) }

end Consistent

/-- A free node's link leads along the free list, and is not cleared. -/
theorem ne_cleared_of_mem {link : Link} {chain : List Nat} (threads : pool.FreeChain link chain)
    (inside : ∀ slot ∈ chain, slot < pool.size) {slot : Nat} (member : slot ∈ chain) :
    pool.linkOf slot 0 ≠ Link.cleared := by
  have start : ∀ {link : Link} {chain : List Nat}, pool.FreeChain link chain →
      (∀ slot ∈ chain, slot < pool.size) → link ≠ Link.cleared := by
    rintro link (_ | ⟨first, rest⟩) threads inside
    · rw [show link = Link.nil from threads]
      exact Link.cleared_ne_nil.symm
    · rw [threads.1]
      intro same
      have unmarked := Link.isMarked_ofSlot (size_lt_slotLimit (inside first List.mem_cons_self))
      rw [same, Link.isMarked_cleared] at unmarked
      exact Bool.false_ne_true unmarked.symm
  induction chain generalizing link with
  | nil => cases member
  | cons first rest inductionHypothesis =>
    have restInside : ∀ slot ∈ rest, slot < pool.size := fun other inRest =>
      inside other (List.mem_cons_of_mem _ inRest)
    rcases List.mem_cons.mp member with rfl | inRest
    · exact start threads.2 restInside
    · exact inductionHypothesis threads.2 restInside inRest

/-! ### A node that is not linked yet -/

/-- A node was taken off the free list and filled, and is not linked yet. -/
structure Filled (line free : List Nat) (pending : Nat → Bool) (node : Nat) (entry : Entry)
    (pool : Pool 1 Entry) : Prop where
  new : node ∉ spine line
  occupied : node ∉ free
  inside : node < pool.size
  body : pool.bodyOf node = entry
  nil : pool.linkOf node 0 = Link.nil
  notPending : pending node = false

namespace Consistent

/-- The first free node was taken off the free list. -/
theorem allocated {rest : List Nat}
    (consistent : Consistent line (node :: rest) [] pending held pool)
    (allocated : Allocated rest (fun slot => held slot + placeCount pending slot) node pool after) :
    Consistent line rest [node] pending (addCount held node) after := by
  have new : node ∉ spine line := fun member =>
    consistent.occupied node member List.mem_cons_self
  have links : ∀ slot, slot ≠ node → after.linkOf slot 0 = pool.linkOf slot 0 := by
    intro slot apart
    rw [allocated.links, if_neg apart]
  have strung := consistent.strung
  have back? : ∀ slot, after.back? slot = pool.back? slot := fun slot =>
    Pool.back?_congr (allocated.back slot)
  refine consistent.of_frame (strung.congr allocated.size (fun slot _ => keyOf_congr
    (allocated.body slot)) (fun slot member => ?_) ?_ ?_) allocated.size
    (allocated.accounted.congr fun slot _ => ?_) (fun slot => List.mem_cons_of_mem node)
    (fun slot known => ?_) (fun slot cleared => ?_) back?
  · exact next?_congr (links slot fun isNode : slot = node =>
      new (isNode ▸ mem_spine_of_mem_cons member))
  · rw [marked_congr (links headSlot fun same => new (same ▸ head_mem_spine line))]
    exact strung.headUnmarked
  · rw [links tailSlot fun same => new (same ▸ tail_mem_spine line)]
    exact strung.tailNil
  · exact (addCount_add _ _ _ _).symm
  · rcases known with isFresh | isFree
    · exact absurd isFresh (by simp)
    · rcases List.mem_cons.mp isFree with rfl | inRest
      · exact Or.inl List.mem_cons_self
      · exact Or.inr inRest
  · rw [links slot]
    · exact cleared
    · rintro rfl
      exact ne_cleared_of_mem consistent.accounted.chain consistent.accounted.inside
        List.mem_cons_self cleared

/-- A node outside the line may be filled. -/
theorem withFreshBody (consistent : Consistent line free fresh pending held pool)
    (inside : node < pool.size) (new : node ∉ spine line) (entry : Entry) :
    Consistent line free fresh pending held (pool.withBody node entry) := by
  have links : ∀ slot, (pool.withBody node entry).linkOf slot 0 = pool.linkOf slot 0 :=
    fun slot => linkOf_withBody inside slot 0
  have back? : ∀ slot, (pool.withBody node entry).back? slot = pool.back? slot := fun slot =>
    Pool.back?_congr (backOf_withBody inside slot)
  refine consistent.of_frame (consistent.strung.congr (size_withBody _ _) (fun slot member => ?_)
    (fun slot _ => ?_) ?_ ?_) (size_withBody _ _) ((consistent.accounted.of_frame (fun _ => 0)
      (size_withBody _ _) rfl (fun slot _ level => linkOf_withBody inside slot level) back?
      (fun _ _ => rfl) fun slot _ => counterOf_withBody inside slot).congr fun _ _ => rfl)
    (fun _ isFree => isFree) (fun _ known => known) (fun slot cleared => ?_) back?
  · refine keyOf_congr ?_
    rw [bodyOf_withBody inside, if_neg fun isNode : slot = node =>
      new (isNode ▸ mem_spine_of_mem member)]
  · exact next?_congr (links slot)
  · rw [marked_congr (links headSlot)]
    exact consistent.strung.headUnmarked
  · rw [links]
    exact consistent.strung.tailNil
  · rw [links]
    exact cleared

/-! ### Linking a node -/

/-- No key of the line lies between those of two neighbours. -/
theorem window (consistent : Consistent line free fresh pending held pool) {key : Int64}
    (adjacent : Adjacent line pool 0 prev next) (prevMember : prev ∈ headSlot :: line)
    (prevBefore : prev = headSlot ∨ keyOf pool prev < key)
    (nextBehind : next = tailSlot ∨ key < keyOf pool next) {slot : Nat} (member : slot ∈ line) :
    rank line slot ≤ rank line prev ∧ keyOf pool slot < key ∨
      rank line next ≤ rank line slot ∧ key < keyOf pool slot := by
  have distinct := consistent.strung.distinct
  have keyLe : ∀ front ∈ line, ∀ behind ∈ line, rank line front ≤ rank line behind →
      keyOf pool front ≤ keyOf pool behind := by
    intro front frontMember behind behindMember le
    refine Int64.not_lt.mp fun smaller => Nat.not_lt_of_le le ?_
    exact consistent.ground.rank_lt_of_key_lt behindMember frontMember smaller
  rcases Nat.lt_or_ge (rank line prev) (rank line slot) with behind | front
  · have past := adjacent.between slot member (consistent.strung.linked slot member) behind
    have inner : next ≠ tailSlot := by
      rintro rfl
      exact Nat.not_lt_of_le past (rank_lt_rank_tail distinct (List.mem_cons_of_mem _ member))
    have further := keyLe next (adjacent.mem_of_ne_tail inner) slot member past
    exact Or.inr ⟨past, Int64.lt_of_lt_of_le (nextBehind.resolve_left inner) further⟩
  · have inLine : prev ∈ line := by
      refine (List.mem_cons.mp prevMember).resolve_left ?_
      rintro rfl
      rw [rank_head] at front
      exact Nat.not_lt_of_le front (rank_pos distinct member)
    have smaller : keyOf pool prev < key := prevBefore.resolve_left fun isHead =>
      head_not_mem distinct (isHead ▸ inLine)
    exact Or.inl ⟨front, Int64.lt_of_le_of_lt (keyLe slot member prev inLine front) smaller⟩

/-- The line with a node at the place of its key. -/
abbrev entered (line : List Nat) (pool : Pool 1 Entry) (node : Nat) : List Nat :=
  enter line (fun slot => decide (keyOf pool slot < keyOf pool node)) node

/-- In front of a node that has entered stand just the nodes with smaller keys. -/
theorem rank_entered_lt_iff (consistent : Consistent line free fresh pending held pool)
    (new : node ∉ spine line) {slot : Nat} (member : slot ∈ line) :
    rank (entered line pool node) slot < rank (entered line pool node) node ↔
      keyOf pool slot < keyOf pool node := by
  rw [rank_enter_lt_iff consistent.strung.distinct new ?downward member, decide_eq_true_eq]
  case downward =>
    intro front frontMember behind behindMember before
    rw [decide_eq_true_eq, decide_eq_true_eq]
    exact Int64.lt_trans (consistent.strung.sorted front frontMember behind behindMember before)

/-- The line stays in order with a node between two neighbours. -/
theorem sorted_entered (consistent : Consistent line free fresh pending held pool)
    (new : node ∉ spine line) (apart : ∀ slot ∈ line, keyOf pool slot ≠ keyOf pool node) :
    ∀ front ∈ entered line pool node, ∀ behind ∈ entered line pool node,
      rank (entered line pool node) front < rank (entered line pool node) behind →
        keyOf pool front < keyOf pool behind := by
  have part : line.Sublist (entered line pool node) := enter_sublist
  have distinct : (spine (entered line pool node)).Nodup :=
    nodup_enter consistent.strung.distinct new
  have order : ∀ slot ∈ line, rank (entered line pool node) slot <
      rank (entered line pool node) node ↔ keyOf pool slot < keyOf pool node :=
    fun slot => consistent.rank_entered_lt_iff new
  intro front frontMember behind behindMember before
  rcases mem_enter.mp frontMember with rfl | frontInLine
  · rcases mem_enter.mp behindMember with rfl | behindInLine
    · exact absurd before (Nat.lt_irrefl _)
    · have notSmaller : ¬ keyOf pool behind < keyOf pool front := fun smaller =>
        Nat.lt_asymm before ((order behind behindInLine).mpr smaller)
      exact Int64.lt_of_le_of_ne (Int64.not_lt.mp notSmaller) (apart behind behindInLine).symm
  · rcases mem_enter.mp behindMember with rfl | behindInLine
    · exact (order front frontInLine).mp before
    · exact consistent.strung.sorted front frontInLine behind behindInLine
        ((rank_lt_rank_iff part distinct (mem_spine_of_mem frontInLine)
          (mem_spine_of_mem behindInLine)).mpr before)

/-- A node that enters between two neighbours stands between them. -/
theorem rank_entered_between (consistent : Consistent line free fresh pending held pool)
    (new : node ∉ spine line) (adjacent : Adjacent line pool 0 prev next)
    (prevMember : prev ∈ headSlot :: line)
    (prevBefore : prev = headSlot ∨ keyOf pool prev < keyOf pool node)
    (nextBehind : next = tailSlot ∨ keyOf pool node < keyOf pool next) :
    rank (entered line pool node) prev < rank (entered line pool node) node ∧
      rank (entered line pool node) node < rank (entered line pool node) next := by
  have lineDistinct := consistent.strung.distinct
  have distinct : (spine (entered line pool node)).Nodup := nodup_enter lineDistinct new
  have member : node ∈ entered line pool node := mem_enter.mpr (Or.inl rfl)
  constructor
  · rcases List.mem_cons.mp prevMember with rfl | inLine
    · rw [rank_head]
      exact rank_pos distinct member
    · refine (consistent.rank_entered_lt_iff new inLine).mpr (prevBefore.resolve_left ?_)
      rintro rfl
      exact head_not_mem lineDistinct inLine
  · rcases adjacent.ends with rfl | ⟨inLine, -⟩
    · exact rank_lt_rank_tail distinct (List.mem_cons_of_mem _ member)
    · have greater : keyOf pool node < keyOf pool next := nextBehind.resolve_left fun isTail =>
        tail_not_mem lineDistinct (isTail ▸ inLine)
      refine Nat.lt_of_le_of_ne (Nat.le_of_not_lt fun front => ?_) fun same => ?_
      · exact Int64.lt_asymm greater ((consistent.rank_entered_lt_iff new inLine).mp front)
      · rw [rank_injective (mem_spine_of_mem member) same] at greater
        exact Int64.lt_irrefl greater

section Interposed

variable {entry : Entry} (consistent : Consistent line free fresh pending held pool)
  (filled : Filled line free pending node entry pool) (prevMember : prev ∈ headSlot :: line)

include consistent filled prevMember

/-- Linking a node changes its own link and that of its predecessor. -/
theorem linkOf_interposed_of_ne {slot : Nat} (notPrev : slot ≠ prev) (notNode : slot ≠ node) :
    (pool.interposed prev node next 0).linkOf slot 0 = pool.linkOf slot 0 := by
  have prevInside := consistent.inside (mem_spine_of_mem_cons prevMember)
  rw [linkOf_interposed Nat.zero_lt_one prevInside filled.inside,
    if_neg fun same => notPrev same.1, if_neg fun same => notNode same.1]

/-- What was taken off the list is not touched. -/
theorem cleared_interposed {slot : Nat} (cleared : pool.linkOf slot 0 = Link.cleared) :
    (pool.interposed prev node next 0).linkOf slot 0 = Link.cleared := by
  rw [consistent.linkOf_interposed_of_ne filled prevMember]
  · exact cleared
  · rintro rfl
    exact consistent.not_mem_of_cleared cleared prevMember
  · rintro rfl
    rw [filled.nil] at cleared
    exact Link.cleared_ne_nil cleared.symm

/-- What is linked stays strung when a node is linked between its neighbours. -/
theorem strung_interposed (leads : pool.linkOf prev 0 = Link.ofSlot next)
    (nextInside : next < pool.size) (prevBefore : prev = headSlot ∨ keyOf pool prev < entry.key)
    (nextBehind : next = tailSlot ∨ entry.key < keyOf pool next) :
    Strung (entered line pool node) (pool.interposed prev node next 0) := by
  have strung := consistent.strung
  have adjacent := consistent.holds.adjacent prevMember leads nextInside
  have nodeKey : keyOf pool node = entry.key := congrArg Entry.key filled.body
  rw [← nodeKey] at prevBefore nextBehind
  have new := filled.new
  have part : line.Sublist (entered line pool node) := enter_sublist
  have distinct : (spine (entered line pool node)).Nodup := nodup_enter strung.distinct new
  have member : node ∈ entered line pool node := mem_enter.mpr (Or.inl rfl)
  have prevEntered : prev ∈ headSlot :: entered line pool node :=
    List.cons_subset_cons headSlot part.subset prevMember
  have prevInside := consistent.inside (mem_spine_of_mem_cons prevMember)
  have differs : ∀ slot ∈ line, keyOf pool slot ≠ keyOf pool node := by
    intro slot inLine same
    rcases consistent.window adjacent prevMember prevBefore nextBehind inLine with
      ⟨-, smaller⟩ | ⟨-, greater⟩
    · exact absurd (same ▸ smaller) Int64.lt_irrefl
    · exact absurd (same ▸ greater) Int64.lt_irrefl
  obtain ⟨prevFront, nextRear⟩ :=
    consistent.rank_entered_between new adjacent prevMember prevBefore nextBehind
  have nodeTo : pool.next? 0 node = none := next?_of_nil filled.nil
  have key : ∀ slot, keyOf (pool.interposed prev node next 0) slot = keyOf pool slot :=
    fun slot => keyOf_congr (bodyOf_interposed prevInside filled.inside slot)
  have entering : Threaded (entered line pool node) pool 0 := by
    refine strung.threaded.of_superlist distinct part fun slot inLonger absent => ?_
    rw [(mem_enter.mp inLonger).resolve_right absent]
    exact not_linked_of_next? nodeTo
  refine ⟨distinct, ?inside, ?sorted, entering.interposed Nat.zero_lt_one prevInside filled.inside
    nextInside prevEntered member leads filled.nil prevFront nextRear, ?linked, ?headUnmarked,
    ?tailNil⟩
  case inside =>
    intro slot inSpine
    rw [size_interposed]
    rcases mem_spine.mp inSpine with rfl | inLonger | rfl
    · exact consistent.inside (head_mem_spine line)
    · rcases mem_enter.mp inLonger with rfl | inLine
      · exact filled.inside
      · exact consistent.inside (mem_spine_of_mem inLine)
    · exact consistent.inside (tail_mem_spine line)
  case sorted =>
    intro front frontMember behind behindMember before
    rw [key, key]
    exact consistent.sorted_entered new differs front frontMember behind behindMember before
  case linked =>
    intro slot inLonger
    refine (linked_interposed_iff Nat.zero_lt_one prevInside filled.inside nextInside leads).mpr ?_
    exact (mem_enter.mp inLonger).imp (fun isNode => ⟨isNode, rfl⟩) (strung.linked slot)
  case headUnmarked =>
    exact fun marked => strung.headUnmarked
      (isMarked_of_interposed Nat.zero_lt_one prevInside filled.inside nextInside marked)
  case tailNil =>
    rw [consistent.linkOf_interposed_of_ne filled prevMember]
    · exact strung.tailNil
    · rintro rfl
      rcases List.mem_cons.mp prevMember with isHead | inLine
      · exact absurd isHead (by decide)
      · exact tail_not_mem strung.distinct inLine
    · rintro rfl
      exact new (tail_mem_spine line)

end Interposed

/-- A filled node is linked between the neighbours between which its key lies. The count of its
allocation is then that of the link to it. -/
theorem interposed (consistent : Consistent line free [node] pending (addCount held node) pool)
    {entry : Entry} (filled : Filled line free pending node entry pool)
    (prevMember : prev ∈ headSlot :: line) (leads : pool.linkOf prev 0 = Link.ofSlot next)
    (nextInside : next < pool.size) (prevBefore : prev = headSlot ∨ keyOf pool prev < entry.key)
    (nextBehind : next = tailSlot ∨ entry.key < keyOf pool next) :
    Consistent (entered line pool node) free [] (await pending node) held
      (pool.interposed prev node next 0) := by
  have prevInside := consistent.inside (mem_spine_of_mem_cons prevMember)
  have member : node ∈ entered line pool node := mem_enter.mpr (Or.inl rfl)
  have part : line.Sublist (entered line pool node) := enter_sublist
  have cleared : ∀ slot, pool.linkOf slot 0 = Link.cleared →
      (pool.interposed prev node next 0).linkOf slot 0 = Link.cleared := fun slot =>
    consistent.cleared_interposed filled prevMember
  have back? : ∀ slot, (pool.interposed prev node next 0).back? slot = pool.back? slot :=
    fun slot => Pool.back?_congr (backOf_interposed prevInside filled.inside slot)
  have notFree : ∀ slot ∈ spine (entered line pool node), slot ∉ free := by
    intro slot inSpine
    rcases mem_spine.mp inSpine with rfl | inLonger | rfl
    · exact consistent.occupied headSlot (head_mem_spine line)
    · rcases mem_enter.mp inLonger with rfl | inLine
      · exact filled.occupied
      · exact consistent.occupied slot (mem_spine_of_mem inLine)
    · exact consistent.occupied tailSlot (tail_mem_spine line)
  refine ⟨consistent.strung_interposed filled prevMember leads nextInside prevBefore nextBehind,
    ?accounted, notFree, ?covered, ?linkedPending, ?pendingKnown, fun slot =>
      (back? slot).trans (consistent.bare slot)⟩
  case accounted =>
    refine (consistent.accounted.of_frame (fun _ => 0) (size_interposed _ _ _ _) rfl
      (fun slot isFree level => ?_) back? (fun _ _ => rfl) fun slot _ =>
        counterOf_interposed prevInside filled.inside slot).congr fun slot _ =>
          placeCount_await filled.notPending held slot
    rw [linkOf_interposed Nat.zero_lt_one prevInside filled.inside, if_neg, if_neg]
    · rintro ⟨rfl, -⟩
      exact filled.occupied isFree
    · rintro ⟨rfl, -⟩
      exact consistent.occupied slot (mem_spine_of_mem_cons prevMember) isFree
  case covered =>
    intro slot inside
    rw [size_interposed] at inside
    rcases consistent.covered slot inside with inSpine | isFresh | isFree | isCleared
    · exact Or.inl ((spine_sublist part).subset inSpine)
    · exact Or.inl (mem_spine_of_mem (List.mem_singleton.mp isFresh ▸ member))
    · exact Or.inr (Or.inr (Or.inl isFree))
    · exact Or.inr (Or.inr (Or.inr (cleared slot isCleared)))
  case linkedPending =>
    intro slot inLonger
    rw [await_eq_true_iff]
    exact (mem_enter.mp inLonger).symm.imp_left (consistent.linkedPending slot)
  case pendingKnown =>
    intro slot isPending
    rcases await_eq_true_iff.mp isPending with wasPending | rfl
    · exact (consistent.pendingKnown slot wasPending).imp (fun inLine => part.subset inLine)
        (cleared slot)
    · exact Or.inl member

/-- Linking a node leaves what is pending as it was. -/
theorem alike_interposed (consistent : Consistent line free fresh pending held pool)
    {entry : Entry} (filled : Filled line free pending node entry pool)
    (prevMember : prev ∈ headSlot :: line) (leads : pool.linkOf prev 0 = Link.ofSlot next)
    (nextInside : next < pool.size) : Alike pending pool (pool.interposed prev node next 0) where
  size := size_interposed _ _ _ _
  body slot _ := bodyOf_interposed (consistent.inside (mem_spine_of_mem_cons prevMember))
    filled.inside slot
  marked slot isPending := by
    have prevInside := consistent.inside (mem_spine_of_mem_cons prevMember)
    by_cases isPrev : slot = prev
    · rw [isPrev]
      exact iff_of_false
        (not_marked_of_linkOf (linkOf_interposed_prev Nat.zero_lt_one prevInside filled.inside)
          (size_lt_slotLimit filled.inside))
        (not_marked_of_linkOf leads (size_lt_slotLimit nextInside))
    · refine marked_congr (consistent.linkOf_interposed_of_ne filled prevMember isPrev ?_)
      rintro rfl
      rw [filled.notPending] at isPending
      exact Bool.false_ne_true isPending
  cleared _ _ := consistent.cleared_interposed filled prevMember

end Consistent

/-! ### Placing a node -/

/-- Walks leave a filled node as it is. -/
theorem Filled.walked {entry : Entry} {consistent : Consistent line free fresh pending held pool}
    (filled : Filled line free pending node entry pool) {temporary : List Nat}
    (holds : consistent.ground.Holds temporary after) :
    Filled (remaining line after) free pending node entry after where
  new inSpine := filled.new ((spine_sublist List.filter_sublist).subset inSpine)
  occupied := filled.occupied
  inside := by
    rw [holds.size]
    exact filled.inside
  body := (holds.tidied.body node).trans filled.body
  nil := by
    rw [holds.tidied.outside node (fun member => filled.new (mem_spine_of_mem_cons member)) 0]
    exact filled.nil
  notPending := filled.notPending

/-- A node was linked, and what was pending stayed as it was. -/
structure Joined (pending : Nat → Bool) (held : Nat → Nat) (node : Nat) (entry : Entry)
    (pool after : Pool 1 Entry) : Prop where
  consistent : ∃ line free, Consistent line free [] (await pending node) held after
  alike : Alike pending pool after
  body : after.bodyOf node = entry
  alive : ¬ Marked after node

/-- Giving up counts leaves a node that was linked. -/
theorem Joined.releaseAll_ends {entry : Entry} {slots : List Nat}
    (joined : Joined pending (fun slot => held slot + slots.count slot) node entry pool after)
    (inside : ∀ slot ∈ slots, slot < after.size) :
    Ends (releaseAll slots) after fun _ last => Joined pending held node entry pool last := by
  obtain ⟨line, free, consistent⟩ := joined.consistent
  have awaited : await pending node node = true := await_eq_true_iff.mpr (Or.inr rfl)
  refine (consistent.releaseAll_ends slots inside).imp fun _ last released => ?_
  obtain ⟨laterFree, settled, alike⟩ := released
  exact {
    consistent := ⟨line, laterFree, settled⟩
    alike := joined.alike.trans
      (alike.mono fun slot isPending => await_eq_true_iff.mpr (Or.inl isPending))
    body := (alike.body node awaited).trans joined.body
    alive := (alike.marked node awaited).not.mpr joined.alive }

/-- What became of a filled node: it was given up, since there is a live node with its key, or it
was linked. -/
inductive Placed (line : List Nat) (pending : Nat → Bool) (held : Nat → Nat) (node : Nat)
    (entry : Entry) (pool : Pool 1 Entry) : Bool → Pool 1 Entry → Prop
  | given {slot : Nat} {after : Pool 1 Entry} (member : slot ∈ line)
      (alive : ¬ Marked pool slot) (same : keyOf pool slot = entry.key)
      (consistent : ∃ line free, Consistent line free [] pending held after)
      (alike : Alike pending pool after) : Placed line pending held node entry pool false after
  | linked {after : Pool 1 Entry}
      (alone : ∀ slot ∈ line, ¬ Marked pool slot → keyOf pool slot ≠ entry.key)
      (joined : Joined pending held node entry pool after) :
      Placed line pending held node entry pool true after

namespace Consistent

section Placing

variable {entry : Entry}
  (consistent : Consistent line free [node] pending (addCount held node) pool)
  (filled : Filled line free pending node entry pool)
  (found : consistent.ground.Found [] entry.key (prev, next) after)

include found

theorem mem_spine_of_found : ∀ slot ∈ [prev, next], slot ∈ spine line := by
  intro slot member
  simp only [List.mem_cons, List.not_mem_nil, or_false] at member
  rcases member with rfl | rfl
  · exact mem_spine_of_mem_cons found.member
  · exact found.adjacent.mem_spine

/-- If the node that was found does not have the key, no live node has it. -/
theorem alone_of_found (absent : ¬ (next ≠ tailSlot ∧ keyOf pool next = entry.key)) :
    ∀ slot ∈ line, ¬ Marked pool slot → keyOf pool slot ≠ entry.key := by
  intro slot member alive same
  have isNext : next = slot := found.eq_of_key_eq member alive same
  refine absent ⟨fun isTail => ?_, isNext ▸ same⟩
  exact tail_not_mem consistent.strung.distinct (isTail ▸ isNext ▸ member)

include filled

/-- A node whose key is there is given up. -/
theorem giveUpFresh_ends (unheld : held node = 0) (inner : next ≠ tailSlot)
    (same : keyOf pool next = entry.key) :
    Ends (releaseAll [next, prev, node]) after fun _ last =>
      Placed line pending held node entry pool false last := by
  obtain ⟨member, alive, -⟩ := found.reached.resolve_left inner
  have counted : ∀ slot, held slot + [next, prev, node].count slot =
      addCount held node slot + [prev, next].count slot := by
    intro slot
    unfold addCount
    simp only [List.count_cons, List.count_nil, beq_iff_eq, eq_comm (a := slot)]
    omega
  have walked := (consistent.walked found.holds (consistent.mem_spine_of_found found)).congr counted
  have stillFilled := filled.walked found.holds
  refine (walked.releaseAll_ends _ fun slot inSlots => ?_).imp fun _ last released => ?_
  · simp only [List.mem_cons, List.not_mem_nil, or_false] at inSlots
    rcases inSlots with rfl | rfl | rfl
    · exact found.holds.inside (mem_spine_of_mem member)
    · exact found.holds.inside (mem_spine_of_mem_cons found.member)
    · exact stillFilled.inside
  · obtain ⟨laterFree, settled, alike⟩ := released
    have inside : node < last.size := by
      rw [alike.size]
      exact stillFilled.inside
    have noPlace : placeCount pending node = 0 := by
      have new : node ∉ spine line := filled.new
      unfold placeCount
      rw [filled.notPending, if_neg Bool.false_ne_true, Nat.add_zero, if_neg]
      exact fun sentinel => new (mem_spine_of_isSentinel sentinel)
    refine Placed.given member alive same ⟨_, _, settled.settled fun slot isFresh => ?_⟩
      ((found.holds.alike pending).trans alike)
    rw [List.mem_singleton.mp isFresh]
    exact (settled.mem_free_iff inside).mpr ⟨unheld, noPlace⟩

/-- A node whose key is not there may stand in front of the node that was found. -/
theorem joined_of_found (absent : ¬ (next ≠ tailSlot ∧ keyOf pool next = entry.key)) :
    Joined pending (fun slot => held slot + [next, prev].count slot) node entry pool
      (after.interposed prev node next 0) := by
  have prevSpine : prev ∈ spine line := mem_spine_of_mem_cons found.member
  have counted : ∀ slot, addCount (fun other => held other + [next, prev].count other) node slot =
      addCount held node slot + [prev, next].count slot := by
    intro slot
    unfold addCount
    simp only [List.count_cons, List.count_nil, beq_iff_eq, eq_comm (a := slot)]
    omega
  have walked := (consistent.walked found.holds (consistent.mem_spine_of_found found)).congr counted
  have still := filled.walked found.holds
  have sameKey : ∀ slot, keyOf after slot = keyOf pool slot := fun slot =>
    keyOf_congr (found.holds.tidied.body slot)
  have prevRemains : prev ∈ headSlot :: remaining line after := by
    rcases List.mem_cons.mp found.member with isHead | inLine
    · exact isHead ▸ List.mem_cons_self
    · exact List.mem_cons_of_mem _ (mem_remaining.mpr
        ⟨inLine, found.holds.linked_of_alive found.member found.alive⟩)
  have prevInside : prev < after.size := found.holds.inside prevSpine
  have nextInside : next < after.size := found.holds.inside found.adjacent.mem_spine
  have prevBefore : prev = headSlot ∨ keyOf after prev < entry.key := by
    rw [sameKey]
    exact found.before
  have nextBehind : next = tailSlot ∨ entry.key < keyOf after next := by
    rw [sameKey]
    refine or_iff_not_imp_left.mpr fun inner => ?_
    obtain ⟨-, -, le⟩ := found.reached.resolve_left inner
    exact Int64.lt_of_le_of_ne le fun same => absent ⟨inner, same.symm⟩
  have apart : node ≠ prev := fun same => filled.new (same ▸ prevSpine)
  have linked := walked.interposed still prevRemains found.leads nextInside prevBefore nextBehind
  refine ⟨⟨_, _, linked⟩, (found.holds.alike pending).trans
    (walked.alike_interposed still prevRemains found.leads nextInside),
    (bodyOf_interposed prevInside still.inside node).trans still.body, ?_⟩
  exact not_marked_of_linkOf (linkOf_interposed_node Nat.zero_lt_one prevInside still.inside apart)
    (size_lt_slotLimit nextInside)

/-- A node whose key is not there is linked in front of the node that was found. -/
theorem linkFound_ends (absent : ¬ (next ≠ tailSlot ∧ keyOf pool next = entry.key)) :
    Ends (do
        let behind ← linkTo next
        setLink node 0 behind
        let own ← linkTo node
        let linked ← swapLink prev 0 behind own
        if linked then do
          releaseAll [next, prev]
          pure true
        else Operation.stop .interference) after
      (Placed line pending held node entry pool) := by
  have prevSpine : prev ∈ spine line := mem_spine_of_mem_cons found.member
  have prevInside : prev < after.size := found.holds.inside prevSpine
  have nodeInside : node < after.size := (filled.walked found.holds).inside
  have apart : node ≠ prev := fun same => filled.new (same ▸ prevSpine)
  have joined := consistent.joined_of_found filled found absent
  have nextInside : next < after.size := found.holds.inside found.adjacent.mem_spine
  refine Ends.bind (linkTo_ends nextInside (Ends.bind (setLink_ends nodeInside Nat.zero_lt_one ?_)))
  refine Ends.bind (linkTo_ends (by rwa [size_withLink]) ?_)
  refine Ends.bind (swapLink_ends (by rwa [size_withLink]) Nat.zero_lt_one ?_ ?_)
  · rw [linkOf_withLink nodeInside Nat.zero_lt_one, if_neg fun same => apart same.1.symm]
    exact found.leads
  rw [if_pos rfl]
  show Ends _ (after.interposed prev node next 0) _
  refine Ends.andThen (joined.releaseAll_ends fun slot inSlots => ?_) fun _ last released =>
    Ends.pure (Placed.linked (consistent.alone_of_found found absent) released)
  rw [size_interposed]
  exact found.holds.inside (consistent.mem_spine_of_found found slot
    ((List.Perm.swap prev next []).mem_iff.mp inSlots))

end Placing

/-- The search for the key decides what becomes of a filled node. -/
theorem linkFresh_ends {entry : Entry}
    (consistent : Consistent line free [node] pending (addCount held node) pool)
    (filled : Filled line free pending node entry pool) (unheld : held node = 0) :
    Ends (linkFresh node entry.key) pool (Placed line pending held node entry pool) := by
  unfold linkFresh
  refine Ends.andThen (search_ends consistent.holds entry.key) fun position middle found => ?_
  obtain ⟨prev, next⟩ := position
  refine Ends.bind (hasKey_ends found.holds found.adjacent.mem_spine ?_)
  by_cases present : next ≠ tailSlot ∧ consistent.ground.key next = entry.key
  · rw [if_pos (decide_eq_true present)]
    exact Ends.andThen (consistent.giveUpFresh_ends filled found unheld present.1 present.2)
      fun _ _ placed => Ends.pure placed
  · rw [if_neg (by rw [decide_eq_true_eq]; exact present)]
    exact consistent.linkFound_ends filled found present

/-- An insert fills the fresh node and places it. -/
theorem placeFresh_ends {key : Int64} {word : UInt64}
    (consistent : Consistent line free [node] pending (addCount held node) pool)
    (new : node ∉ spine line) (occupied : node ∉ free) (inside : node < pool.size)
    (nil : pool.linkOf node 0 = Link.nil) (notPending : pending node = false)
    (unheld : held node = 0) :
    Ends (placeFresh node key word) pool (Placed line pending held node ⟨key, word⟩ pool) := by
  have bodied := consistent.withFreshBody inside new ⟨key, word⟩
  have filled : Filled line free pending node ⟨key, word⟩ (pool.withBody node ⟨key, word⟩) := by
    refine ⟨new, occupied, by rwa [size_withBody], ?_, ?_, notPending⟩
    · rw [bodyOf_withBody inside, if_pos rfl]
    · rw [linkOf_withBody inside]
      exact nil
  have apart : ∀ slot, pending slot = true → slot ≠ node := by
    rintro slot isPending rfl
    rw [notPending] at isPending
    exact Bool.false_ne_true isPending
  have body : ∀ slot, slot ≠ node →
      (pool.withBody node ⟨key, word⟩).bodyOf slot = pool.bodyOf slot := by
    intro slot notNode
    rw [bodyOf_withBody inside, if_neg notNode]
  have alike : Alike pending pool (pool.withBody node ⟨key, word⟩) := by
    refine ⟨size_withBody _ _, fun slot isPending => body slot (apart slot isPending),
      fun slot _ => ?_, fun slot _ off => ?_⟩
    · exact marked_congr (linkOf_withBody inside slot 0)
    · rw [linkOf_withBody inside]
      exact off
  have lineAlike : ∀ slot ∈ line, keyOf (pool.withBody node ⟨key, word⟩) slot = keyOf pool slot ∧
      (Marked (pool.withBody node ⟨key, word⟩) slot ↔ Marked pool slot) := by
    intro slot member
    have isPending := consistent.linkedPending slot member
    exact ⟨keyOf_congr (alike.body slot isPending), alike.marked slot isPending⟩
  unfold placeFresh
  refine Ends.bind (changeBody_ends inside ((bodied.linkFresh_ends filled unheld).imp
    fun linked after placed => ?_))
  cases placed with
  | @given slot _ member alive same settled alikeLater =>
    obtain ⟨slotKey, slotMarked⟩ := lineAlike slot member
    exact Placed.given member (slotMarked.not.mp alive) (slotKey.symm.trans same) settled
      (alike.trans alikeLater)
  | linked alone joined =>
    refine Placed.linked (fun slot member alive => ?_)
      ⟨joined.consistent, alike.trans joined.alike, joined.body, joined.alive⟩
    obtain ⟨slotKey, slotMarked⟩ := lineAlike slot member
    rw [← slotKey]
    exact alone slot member (slotMarked.not.mpr alive)

end Consistent

/-! ### The whole insert -/

/-- What an insert of an aligned payload comes to: there is no free node, the key is there, or the
first free node is linked. -/
inductive Inserting (line free : List Nat) (pending : Nat → Bool) (held : Nat → Nat)
    (key : Int64) (payload : UInt64) (list : SortedList) : InsertOutcome → SortedList → Prop
  | full (none : free = []) :
      Inserting line free pending held key payload list (.error (.full list.capacity.toNat)) list
  | duplicate {slot : Nat} {after : SortedList} (some : free ≠ []) (member : slot ∈ line)
      (alive : ¬ Marked list.pool slot) (same : keyOf list.pool slot = key)
      (settled : Settled pending held 0 list after) :
      Inserting line free pending held key payload list (.ok (.duplicate payload)) after
  | inserted {node : Nat} {rest : List Nat} {after : SortedList} (first : free = node :: rest)
      (alone : ∀ slot ∈ line, ¬ Marked list.pool slot → keyOf list.pool slot ≠ key)
      (capacity : after.capacity = list.capacity) (balance : after.balance = list.balance + 1)
      (joined : Joined pending held node ⟨key, payload⟩ list.pool after.pool) :
      Inserting line free pending held key payload list (.ok .inserted) after

/-- A misaligned payload is refused before anything else. -/
theorem insert_ends_of_misaligned {list : SortedList} {key : Int64} {payload : UInt64}
    {error : ContainerError} (misaligned : alignedWord payload = .error error)
    {condition : InsertOutcome → SortedList → Prop} (goal : condition (.error error) list) :
    Ends (insert key payload) list condition := by
  unfold insert
  rw [misaligned]
  exact Ends.pure goal

/-- An insert of an aligned payload. -/
theorem Consistent.insert_ends {list : SortedList}
    (consistent : Consistent line free [] pending held list.pool) (key : Int64)
    {payload : UInt64} (aligned : alignedWord payload = .ok payload) :
    Ends (insert key payload) list (Inserting line free pending held key payload list) := by
  unfold insert
  rw [aligned]
  cases free with
  | nil =>
    exact Ends.bind (onNodes_ends (allocate_ends_of_nil consistent.accounted
      (Ends.reading rfl (Inserting.full rfl))))
  | cons node rest =>
    refine Ends.bind (onNodes_ends (allocate_ends Nat.zero_lt_one consistent.accounted
      fun taken allocated => ?_))
    have fresh := consistent.allocated allocated
    have inside := consistent.accounted.inside node List.mem_cons_self
    obtain ⟨unheld, noPlace⟩ := (consistent.mem_free_iff inside).mp List.mem_cons_self
    have notPending := (of_placeCount_eq_zero noPlace).2
    have new : node ∉ spine line := fun member =>
      consistent.occupied node member List.mem_cons_self
    have links : ∀ slot, pending slot = true → taken.linkOf slot 0 = list.pool.linkOf slot 0 := by
      intro slot isPending
      rw [allocated.links, if_neg]
      rintro rfl
      rw [notPending] at isPending
      exact Bool.false_ne_true isPending
    have alike : Alike pending list.pool taken := by
      exact ⟨allocated.size, fun slot _ => allocated.body slot,
        fun slot isPending => marked_congr (links slot isPending),
        fun slot isPending off => (links slot isPending).trans off⟩
    have lineAlive : ∀ slot ∈ line, (Marked taken slot ↔ Marked list.pool slot) :=
      fun slot member => alike.marked slot (consistent.linkedPending slot member)
    have places : Ends (placeFresh node key payload) taken
        (Placed line pending held node ⟨key, payload⟩ taken) :=
      fresh.placeFresh_ends new (List.nodup_cons.mp consistent.accounted.distinct).1
        (allocated.size.symm ▸ inside) (by rw [allocated.links, if_pos rfl]) notPending unheld
    refine Ends.bind (onNodes_ends (places.imp fun linked after placed => ?_))
    cases placed with
    | given member alive same settled alikeLater =>
      refine Ends.pure (Inserting.duplicate (List.cons_ne_nil _ _) member
        ((lineAlive _ member).not.mp alive) ((keyOf_congr (allocated.body _)).symm.trans same)
        ⟨rfl, (Int.add_zero _).symm, settled, alike.trans alikeLater⟩)
    | linked alone joined =>
      refine Ends.bind (adjustBalance_ends (Ends.pure (Inserting.inserted rfl
        (fun slot member alive => ?_) rfl rfl ⟨joined.consistent, alike.trans joined.alike,
          joined.body, joined.alive⟩)))
      rw [← keyOf_congr (allocated.body slot)]
      exact alone slot member ((lineAlive slot member).not.mpr alive)

end SortedList

end PooledContainers
