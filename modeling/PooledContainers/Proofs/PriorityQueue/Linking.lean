/-
Linking a node at the levels above level 0. The bodies change while this goes on, as the levels are
recorded to be valid one after another, and walks to the next place are made in between; so what
holds of the nodes is said of each pool on its own here, with the counts that are held for a while.
What the node's links were made for is found at the end: it is linked at every one of its levels,
and nothing else has come to be linked.
-/

import PooledContainers.PriorityQueue.Operations
import PooledContainers.Proofs.PriorityQueue.Changes
import PooledContainers.Proofs.PriorityQueue.Helper

namespace PooledContainers

namespace PriorityQueue

open Line Operation Pool

variable {maxHeight : Nat} {line : List Nat} {base : Nat → Nat} {temporary : List Nat}
  {pool after : Pool maxLevels Entry}

/-! ### What holds of each pool -/

/-- The nodes are in order, and some of them are held for a while. -/
structure Holding (maxHeight : Nat) (line : List Nat) (base : Nat → Nat) (temporary : List Nat)
    (pool : Pool maxLevels Entry) : Prop where
  roster : Roster maxHeight line pool
  lanes : Lanes maxHeight line pool pool
  outlasting : ∀ slot ∈ spine line, 2 ≤ base slot
  held : Held base temporary pool

namespace Holding

/-- The ground for walks. -/
def ground (holding : Holding maxHeight line base temporary pool) : Ground :=
  ⟨maxHeight, line, pool, base, holding.roster, holding.outlasting⟩

theorem holds (holding : Holding maxHeight line base temporary pool) :
    holding.ground.Holds temporary pool :=
  ⟨Tidied.refl _ _ _ _ _, holding.lanes, holding.held⟩

theorem walked (holding : Holding maxHeight line base temporary pool) {others : List Nat}
    (holds : holding.ground.Holds others after) : Holding maxHeight line base others after := by
  have body : ∀ slot, after.bodyOf slot = pool.bodyOf slot := holds.tidied.body
  refine ⟨holding.roster.congr holds.tidied.size (fun slot _ => body slot) holds.tidied.back, ?_,
    holding.outlasting, holds.held⟩
  exact holds.lanes.congr (fun _ _ _ => rfl) (fun slot _ => (deleted_congr (body slot)).mpr)
    (fun slot _ => by rw [body]; rfl) fun slot _ => by rw [body]; rfl

/-- Both nodes of a position are given up, the one behind first. -/
theorem releaseBoth_ends {prev next : Nat}
    (holding : Holding maxHeight line base (prev :: next :: temporary) pool)
    {condition : Unit → Pool maxLevels Entry → Prop} (prevMember : prev ∈ spine line)
    (nextMember : next ∈ spine line)
    (goal : Holding maxHeight line base temporary ((pool.surrendered next).surrendered prev) →
      condition () ((pool.surrendered next).surrendered prev)) :
    Ends (releaseAll [next, prev]) pool condition :=
  holding.holds.swap.releaseBoth_ends nextMember prevMember fun _ holds =>
    goal (holding.walked holds)

end Holding

/-! ### What becomes of the rest -/

/-- A pool has become another one by tidying and by linking a node. -/
structure Grown (line : List Nat) (node : Nat) (pool after : Pool maxLevels Entry) : Prop where
  size : after.size = pool.size
  freeHead : after.freeHead = pool.freeHead
  body : ∀ slot, slot ≠ node → after.bodyOf slot = pool.bodyOf slot
  nodeBody : ∃ valid, after.bodyOf node = { pool.bodyOf node with validHeight := valid }
  back : ∀ slot, after.backOf slot = pool.backOf slot
  outside : ∀ slot, slot ∉ headSlot :: line → ∀ level,
    after.linkOf slot level = pool.linkOf slot level
  linked : ∀ slot, slot ≠ node → ∀ level, after.Linked level slot → pool.Linked level slot
  there : ∀ slot level, pool.linkOf slot level ≠ Link.nil → after.linkOf slot level ≠ Link.nil

namespace Grown

variable {node : Nat} {middle : Pool maxLevels Entry}

theorem trans (first : Grown line node pool middle) (second : Grown line node middle after) :
    Grown line node pool after where
  size := second.size.trans first.size
  freeHead := second.freeHead.trans first.freeHead
  body slot apart := (second.body slot apart).trans (first.body slot apart)
  nodeBody := by
    obtain ⟨early, firstBody⟩ := first.nodeBody
    obtain ⟨late, secondBody⟩ := second.nodeBody
    refine ⟨late, ?_⟩
    rw [secondBody, firstBody]
  back slot := (second.back slot).trans (first.back slot)
  outside slot absent level :=
    (second.outside slot absent level).trans (first.outside slot absent level)
  linked slot apart level linked := first.linked slot apart level (second.linked slot apart level
    linked)
  there slot level there := second.there slot level (first.there slot level there)

theorem of_tidied {longer : List Nat} {dead : Nat → Prop} {level bound : Nat}
    (tidied : Tidied line dead level bound pool after) (part : line ⊆ longer) :
    Grown longer node pool after where
  size := tidied.size
  freeHead := tidied.freeHead
  body slot _ := tidied.body slot
  nodeBody := ⟨_, tidied.body node⟩
  back := tidied.back
  outside slot absent := tidied.outside slot fun member =>
    absent (List.cons_subset_cons headSlot part member)
  linked slot _ := tidied.linked slot
  there _ _ there := tidied.linkOf_ne_nil there

theorem refl (line : List Nat) (node : Nat) (pool : Pool maxLevels Entry) :
    Grown line node pool pool :=
  of_tidied (Tidied.refl line (fun _ => False) 0 0 pool) (List.Subset.refl line)

theorem surrendered (grown : Grown line node pool after) (slot : Nat) :
    Grown line node pool (after.surrendered slot) :=
  grown.trans (of_tidied (Tidied.of_recount line (fun _ => False) 0 0 after slot _)
    (List.Subset.refl line))

theorem interposed {prev next level : Nat} (reached : level < maxLevels)
    (prevInside : prev < pool.size) (nodeInside : node < pool.size) (nextInside : next < pool.size)
    (prevMember : prev ∈ headSlot :: line) (nodeMember : node ∈ line)
    (prevTo : pool.linkOf prev level = Link.ofSlot next) :
    Grown line node pool (pool.interposed prev node next level) := by
  refine ⟨size_interposed prev node next level, rfl,
    fun slot _ => bodyOf_interposed prevInside nodeInside slot,
    ⟨_, bodyOf_interposed prevInside nodeInside node⟩, backOf_interposed prevInside nodeInside,
    ?outside, fun slot apart height linked => ?_, fun _ _ =>
      linkOf_interposed_ne_nil reached prevInside nodeInside nextInside⟩
  case outside =>
    intro slot absent height
    exact linkOf_interposed_of_ne reached prevInside nodeInside
      (fun same => absent (same.1 ▸ prevMember))
      fun same => absent (same.1 ▸ List.mem_cons_of_mem _ nodeMember)
  exact ((linked_interposed_iff reached prevInside nodeInside nextInside prevTo).mp
    linked).resolve_left fun same => apart same.1

/-- Recording valid levels changes nothing else. -/
theorem withValidHeight (inside : node < pool.size) (valid : Nat) :
    Grown line node pool
      (pool.withBody node { pool.bodyOf node with validHeight := valid }) where
  size := size_withBody node _
  freeHead := rfl
  body slot apart := by rw [bodyOf_withBody inside, if_neg apart]
  nodeBody := ⟨valid, by rw [bodyOf_withBody inside, if_pos rfl]⟩
  back := backOf_withBody inside
  outside slot _ level := linkOf_withBody inside slot level
  linked slot _ level linked := linked.congr (next?_congr (by rw [linkOf_withBody inside]))
  there slot level there := by
    rw [linkOf_withBody inside]
    exact there

theorem keyOf (grown : Grown line node pool after) (slot : Nat) :
    keyOf after slot = keyOf pool slot := by
  unfold PriorityQueue.keyOf
  by_cases same : slot = node
  · obtain ⟨valid, body⟩ := grown.nodeBody
    rw [same, body]
  · rw [grown.body slot same]

theorem deleted_iff (grown : Grown line node pool after) (slot : Nat) :
    Deleted after slot ↔ Deleted pool slot := by
  unfold Deleted
  by_cases same : slot = node
  · obtain ⟨valid, body⟩ := grown.nodeBody
    rw [same, body]
  · rw [grown.body slot same]

theorem height (grown : Grown line node pool after) (slot : Nat) :
    (after.bodyOf slot).height = (pool.bodyOf slot).height := by
  by_cases same : slot = node
  · obtain ⟨valid, body⟩ := grown.nodeBody
    rw [same, body]
  · rw [grown.body slot same]

end Grown

/-! ### One level -/

/-- A live node is the first one with its key. -/
theorem Muster.rank_lt_of_alive (muster : Muster maxHeight line pool) {node other : Nat}
    (member : node ∈ line) (alive : ¬ Deleted pool node) (otherMember : other ∈ line)
    (apart : other ≠ node) (keyLe : keyOf pool node ≤ keyOf pool other) :
    rank line node < rank line other := by
  rcases Nat.lt_trichotomy (rank line node) (rank line other) with before | same | behind
  · exact before
  · exact absurd (rank_injective (mem_spine_of_mem member) same).symm apart
  · rcases muster.sorted other otherMember node member behind with less | ⟨-, dead⟩
    · exact absurd less (UInt64.not_lt.mpr keyLe)
    · exact absurd dead alive

theorem requireLive_ends {node : Nat} {condition : Unit → Pool maxLevels Entry → Prop}
    (inside : node < pool.size) (alive : ¬ Deleted pool node) (holds : condition () pool) :
    Ends (requireLive node) pool condition := by
  unfold requireLive isDeleted
  refine Ends.bind (Ends.bind (bodyAt_ends inside (Ends.pure ?_)))
  rw [if_neg (show ¬ (pool.bodyOf node).datum.isDeleted = true from alive)]
  exact Ends.pure holds

theorem swingTo_ends {node prev next level : Nat} {condition : Unit → Pool maxLevels Entry → Prop}
    (nodeInside : node < pool.size) (nextInside : next < pool.size) (inside : prev < pool.size)
    (fits : level < (pool.bodyOf prev).height) (reached : level < maxLevels)
    (leads : pool.linkOf prev level = Link.ofSlot next)
    (holds : condition () (pool.withLink prev level (Link.ofSlot node))) :
    Ends (swingTo node prev next level) pool condition := by
  unfold swingTo
  refine Ends.bind (linkTo_ends nextInside (Ends.bind (linkTo_ends nodeInside ?_)))
  refine Ends.bind (swapLink_ends inside fits reached leads ?_)
  rw [if_pos rfl]
  exact Ends.pure holds

namespace Holding

/-- A node between two neighbours is linked at a level. -/
theorem interposed {prev node next level : Nat}
    (holding : Holding maxHeight line base temporary pool) (prevMember : prev ∈ headSlot :: line)
    (nodeMember : node ∈ line) (nextMember : next ∈ spine line)
    (prevTo : pool.linkOf prev level = Link.ofSlot next)
    (nodeNil : pool.linkOf node level = Link.nil)
    (below : ∀ lower < level, pool.linkOf node lower ≠ Link.nil)
    (fits : level < (pool.bodyOf node).height) (prevBefore : rank line prev < rank line node)
    (nodeBefore : rank line node < rank line next) :
    Holding maxHeight line base temporary (pool.interposed prev node next level) := by
  have roster := holding.roster
  have prevInside := roster.inside prev (mem_spine_of_mem_cons prevMember)
  have nodeInside := roster.inside node (mem_spine_of_mem nodeMember)
  have nextInside := roster.inside next nextMember
  have reached : level < maxLevels :=
    Nat.lt_of_lt_of_le fits (Nat.le_trans (roster.heightLe node nodeMember) roster.heights.2)
  have body : ∀ slot, (pool.interposed prev node next level).bodyOf slot = pool.bodyOf slot :=
    bodyOf_interposed prevInside nodeInside
  refine ⟨roster.congr (size_interposed prev node next level) (fun slot _ => body slot)
    (backOf_interposed prevInside nodeInside), ?_, holding.outlasting,
    holding.held.congr (size_interposed prev node next level)
      (counterOf_interposed prevInside nodeInside)⟩
  exact (holding.lanes.interposed roster.distinct reached prevInside nodeInside nextInside
    prevMember nodeMember prevTo nodeNil below fits prevBefore nodeBefore).congr
    (fun _ _ _ => rfl) (fun slot _ => (deleted_congr (body slot)).mpr)
    (fun slot _ => by rw [body]) fun slot _ => by rw [body]

/-- Levels at which a live node is linked may be recorded as valid. -/
theorem withValidHeight {node valid : Nat}
    (holding : Holding maxHeight line base temporary pool) (member : node ∈ line)
    (alive : ¬ Deleted pool node) (fits : valid ≤ (pool.bodyOf node).height)
    (there : ∀ level < valid, pool.linkOf node level ≠ Link.nil) :
    Holding maxHeight line base temporary
      (pool.withBody node { pool.bodyOf node with validHeight := valid }) := by
  have inside := holding.roster.inside node (mem_spine_of_mem member)
  refine ⟨holding.roster.withBody member rfl rfl (fun dead => absurd dead alive) fits
    fun dead => absurd dead alive, holding.lanes.withBody inside rfl (fun dead => absurd dead alive)
    there, holding.outlasting, holding.held.congr (size_withBody _ _) (counterOf_withBody inside)⟩

/-- What stands in front of the key of a node of the line stands in front of the node. -/
theorem rank_lt_of_before (holding : Holding maxHeight line base temporary pool) {slot node : Nat}
    (slotMember : slot ∈ headSlot :: line) (member : node ∈ line)
    (before : slot = headSlot ∨ keyOf pool slot < keyOf pool node) :
    rank line slot < rank line node := by
  have distinct := holding.roster.distinct
  rcases List.mem_cons.mp slotMember with rfl | inLine
  · rw [rank_head]
    exact rank_pos distinct member
  · refine holding.ground.rank_lt_of_key_lt inLine member (before.resolve_left ?_)
    rintro rfl
    exact head_not_mem distinct inLine

/-- Where a search for the key of a live node ends that is not linked at the level, the node
belongs. -/
theorem rank_between_sought (holding : Holding maxHeight line base temporary pool)
    {others : List Nat} {node prev level bound : Nat} {position : Nat × Nat} (member : node ∈ line)
    (alive : ¬ Deleted pool node) (prevMember : prev ∈ headSlot :: line)
    (prevBefore : prev = headSlot ∨ keyOf pool prev < keyOf pool node)
    (nodeNil : pool.linkOf node level = Link.nil)
    (sought : holding.ground.Sought others prev level (keyOf pool node) bound pool position after) :
    rank line position.1 < rank line node ∧ rank line node < rank line position.2 := by
  have distinct := holding.roster.distinct
  constructor
  · rcases sought.within with early | ⟨-, less⟩
    · exact Nat.lt_of_le_of_lt early (holding.rank_lt_of_before prevMember member prevBefore)
    · exact holding.rank_lt_of_before sought.member member (Or.inr less)
  · rcases sought.adjacent.ends with isTail | ⟨nextMember, nextLinked⟩
    · rw [isTail]
      exact rank_lt_rank_tail distinct (List.mem_cons_of_mem _ member)
    · refine holding.roster.rank_lt_of_alive member alive nextMember ?_ ?_
      · intro same
        rw [same] at nextLinked
        exact nextLinked.ne_nil ((sought.tidied.nil node level).mpr nodeNil)
      · refine sought.reached.resolve_left fun isTail => ?_
        exact tail_not_mem distinct (isTail ▸ nextMember)

/-- Linking a live node at a level at which it is not linked yet. -/
theorem linkAbove_ends {node prev level size : Nat}
    (holding : Holding maxHeight line base (prev :: temporary) pool) (sameSize : pool.size = size)
    (member : node ∈ line) (alive : ¬ Deleted pool node) (prevMember : prev ∈ headSlot :: line)
    (prevBefore : prev = headSlot ∨ keyOf pool prev < keyOf pool node)
    (there : pool.linkOf prev level ≠ Link.nil)
    (below : ∀ lower < level, pool.linkOf node lower ≠ Link.nil)
    (above : ∀ higher, level ≤ higher → pool.linkOf node higher = Link.nil)
    (fits : level < (pool.bodyOf node).height) :
    Ends (linkAbove (helpingFor maxHeight size) node prev level (keyOf pool node)) pool
      fun _ after => Holding maxHeight line base temporary after ∧ Grown line node pool after ∧
        after.linkOf node level ≠ Link.nil ∧
        ∀ higher, level < higher → after.linkOf node higher = Link.nil := by
  have roster := holding.roster
  have nodeSpine := mem_spine_of_mem member
  have rankLe : ∀ slot ∈ headSlot :: line, rank line slot ≤ line.length := fun _ =>
    rank_le_length roster.distinct
  have reached : level < maxLevels :=
    Nat.lt_of_lt_of_le fits (Nat.le_trans (roster.heightLe node member) roster.heights.2)
  have sound : (helpingFor maxHeight size).SoundBefore holding.ground (line.length + 2) :=
    sameSize ▸ helpingFor_sound holding.ground
  unfold linkAbove
  refine Ends.andThen (Helping.seek_ends sound holding.holds prevMember there
    (rankLe prev prevMember) (by omega)
    fun slot slotMember _ => rankLe slot (List.mem_cons_of_mem _ slotMember))
    fun position middle sought => ?_
  obtain ⟨foundBefore, nextBehind⟩ := holding.rank_between_sought member alive prevMember
    prevBefore (above level (Nat.le_refl level)) sought
  obtain ⟨found, next⟩ := position
  have walked : Holding maxHeight line base (found :: next :: temporary) middle :=
    holding.walked sought.holds
  have foundMember : found ∈ headSlot :: line := sought.member
  have leads : middle.linkOf found level = Link.ofSlot next := sought.leads
  have nextSpine : next ∈ spine line := sought.adjacent.mem_spine
  have sameBody : ∀ slot, middle.bodyOf slot = pool.bodyOf slot := sought.tidied.body
  have stillNil : ∀ higher, level ≤ higher → middle.linkOf node higher = Link.nil :=
    fun higher le => (sought.tidied.nil node higher).mpr (above higher le)
  have nodeInside := walked.roster.inside node nodeSpine
  have foundInside := walked.roster.inside found (mem_spine_of_mem_cons foundMember)
  have nextInside := walked.roster.inside next nextSpine
  have apart : node ≠ found := fun same => absurd (same ▸ foundBefore) (Nat.lt_irrefl _)
  have linked : Holding maxHeight line base (found :: next :: temporary)
      (middle.interposed found node next level) :=
    walked.interposed foundMember member nextSpine leads (stillNil level (Nat.le_refl level))
      (fun lower low => sought.tidied.linkOf_ne_nil (below lower low))
      (by rw [sameBody]; exact fits) foundBefore nextBehind
  have grown : Grown line node pool (middle.interposed found node next level) :=
    (Grown.of_tidied sought.tidied (List.Subset.refl line)).trans
      (Grown.interposed reached foundInside nodeInside nextInside foundMember member leads)
  have foundThere : middle.linkOf found level ≠ Link.nil := by
    rw [leads]
    exact Link.ofSlot_ne_nil (size_lt_slotLimit nextInside)
  have foundFits := walked.holds.fits foundMember foundThere
  refine Ends.bind (linkTo_ends nextInside ?_)
  refine Ends.bind (setLink_ends nodeInside (by rwa [sameBody]) reached ?_)
  refine Ends.bind (requireLive_ends (by rwa [size_withLink]) ?_ ?_)
  · rw [deleted_congr ((bodyOf_withLink nodeInside node).trans (sameBody node))]
    exact alive
  refine Ends.bind (swingTo_ends (by rwa [size_withLink]) (by rwa [size_withLink])
    (by rwa [size_withLink]) (by rwa [bodyOf_withLink nodeInside]) reached ?_ ?_)
  · rw [linkOf_withLink nodeInside reached, if_neg fun same => apart same.1.symm]
    exact leads
  show Ends _ (middle.interposed found node next level) _
  refine Ends.bind (requireLive_ends (linked.roster.inside node nodeSpine)
    ((grown.deleted_iff node).not.mpr alive) ?_)
  refine linked.releaseBoth_ends (mem_spine_of_mem_cons foundMember) nextSpine fun done =>
    ⟨done, ?_, ?_, fun higher less => ?_⟩
  · exact (grown.surrendered next).surrendered found
  · rw [linkOf_recount, linkOf_recount,
      linkOf_interposed_node reached foundInside nodeInside apart]
    exact Link.ofSlot_ne_nil (size_lt_slotLimit nextInside)
  · rw [linkOf_recount, linkOf_recount, linkOf_interposed_of_ne reached foundInside nodeInside
      (fun same => apart same.1) fun same => Nat.ne_of_gt less same.2]
    exact stillNil higher (Nat.le_of_lt less)

end Holding

/-! ### All levels -/

/-- Each of some slots stands in front of a key and can be walked on from at its level, the first
one at a level and the others at those above. -/
def Keeps (line : List Nat) (key : UInt64) (pool : Pool maxLevels Entry) : Nat → List Nat → Prop
  | _, [] => True
  | level, slot :: rest =>
    (slot ∈ headSlot :: line ∧ (slot = headSlot ∨ keyOf pool slot < key) ∧
      pool.linkOf slot level ≠ Link.nil) ∧ Keeps line key pool (level + 1) rest

theorem Keeps.mono {longer : List Nat} {key : UInt64} (part : line ⊆ longer)
    (sameKey : ∀ slot, keyOf after slot = keyOf pool slot)
    (there : ∀ slot level, pool.linkOf slot level ≠ Link.nil → after.linkOf slot level ≠ Link.nil)
    {kept : List Nat} {level : Nat} (keeps : Keeps line key pool level kept) :
    Keeps longer key after level kept := by
  induction kept generalizing level with
  | nil => trivial
  | cons slot rest inductionHypothesis =>
    obtain ⟨⟨member, before, walkable⟩, others⟩ := keeps
    refine ⟨⟨List.cons_subset_cons headSlot part member, ?_, there slot level walkable⟩,
      inductionHypothesis others⟩
    rw [sameKey]
    exact before

theorem Keeps.mem {key : UInt64} {kept : List Nat} {level slot : Nat}
    (keeps : Keeps line key pool level kept) (member : slot ∈ kept) : slot ∈ headSlot :: line := by
  induction kept generalizing level with
  | nil => cases member
  | cons first rest inductionHypothesis =>
    rcases List.mem_cons.mp member with rfl | inRest
    · exact keeps.1.1
    · exact inductionHypothesis keeps.2 inRest

/-- Linking a live node at all of its levels from one up, from the nodes kept for them. -/
theorem Holding.linkUpwards_ends {node size : Nat} {key : UInt64} (count : Nat) {level : Nat}
    {kept : List Nat} {pool : Pool maxLevels Entry}
    (holding : Holding maxHeight line base (kept ++ temporary) pool) (sameSize : pool.size = size)
    (sameKey : keyOf pool node = key) (member : node ∈ line) (alive : ¬ Deleted pool node)
    (keeps : Keeps line key pool level kept) (enough : kept.length = count)
    (below : ∀ lower < level, pool.linkOf node lower ≠ Link.nil)
    (above : ∀ higher, level ≤ higher → pool.linkOf node higher = Link.nil)
    (fits : level + count = (pool.bodyOf node).height) :
    Ends (linkUpwards (helpingFor maxHeight size) node key level count kept) pool
      fun _ after => Holding maxHeight line base temporary after ∧ Grown line node pool after ∧
        ∀ lower < (pool.bodyOf node).height, after.linkOf node lower ≠ Link.nil := by
  induction count generalizing level kept pool with
  | zero =>
    rw [List.length_eq_zero_iff.mp enough] at holding
    exact Ends.pure ⟨holding, Grown.refl line node pool,
      fun lower low => below lower (by omega)⟩
  | succ count inductionHypothesis =>
    cases kept with
    | nil => exact absurd enough (by simp)
    | cons prev kept =>
      have inside := holding.roster.inside node (mem_spine_of_mem member)
      obtain ⟨⟨prevMember, prevBefore, walkable⟩, others⟩ := keeps
      have valid := holding.withValidHeight member alive (show level ≤ _ by omega) below
      have recorded : Grown line node pool
          (pool.withBody node { pool.bodyOf node with validHeight := level }) :=
        Grown.withValidHeight inside level
      have links : ∀ slot higher, (pool.withBody node
          { pool.bodyOf node with validHeight := level }).linkOf slot higher =
            pool.linkOf slot higher := linkOf_withBody inside
      unfold linkUpwards setValidHeight
      refine Ends.bind (changeBody_ends inside ?_)
      subst sameKey
      have linking := valid.linkAbove_ends (recorded.size.trans sameSize) member
        ((recorded.deleted_iff node).not.mpr alive) prevMember
        (by rw [recorded.keyOf, recorded.keyOf]; exact prevBefore)
        (by rw [links]; exact walkable) (fun lower low => by rw [links]; exact below lower low)
        (fun higher le => by rw [links]; exact above higher le)
        (by rw [recorded.height]; omega)
      rw [recorded.keyOf] at linking
      refine Ends.andThen linking fun _ middle linked => ?_
      obtain ⟨middleHolding, middleGrown, nodeThere, nodeNil⟩ := linked
      have grown := recorded.trans middleGrown
      refine (inductionHypothesis middleHolding (grown.size.trans sameSize) (grown.keyOf node)
        ((grown.deleted_iff node).not.mpr alive)
        (others.mono (List.Subset.refl line) grown.keyOf grown.there) (Nat.succ.inj enough)
        (fun lower low => ?_) (fun higher le => nodeNil higher le)
        (by rw [grown.height]; omega)).imp fun _ last raised => ?_
      · rcases Nat.eq_or_lt_of_le (Nat.le_of_lt_succ low) with same | less
        · rw [same]
          exact nodeThere
        · exact grown.there node lower (below lower less)
      · obtain ⟨lastHolding, lastGrown, allThere⟩ := raised
        rw [grown.height] at allThere
        exact ⟨lastHolding, grown.trans lastGrown, allThere⟩

end PriorityQueue

end PooledContainers
