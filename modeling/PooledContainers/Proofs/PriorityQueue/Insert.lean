/-
An insert. The walk towards the key keeps a node for each level that a new node would reach; at
level 0 it finds the first node whose key is not smaller. If that node is live and has the key, its
payload is replaced. If not, no live node has the key, and the new node is linked in front of it and
then at the levels above.
-/

import PooledContainers.Proofs.PriorityQueue.Consistent
import PooledContainers.Proofs.PriorityQueue.Linking

namespace PooledContainers

namespace PriorityQueue

open Line Operation Pool

/-! ### Finding the place -/

section Descending

variable {ground : Ground} {helping : Helping} {limit : Nat} {temporary : List Nat}

/-- A node that a walk from the head towards a key has come to. -/
def Ground.Reached (ground : Ground) (key : UInt64) (slot : Nat) : Prop :=
  ground.rank slot ≤ ground.rank headSlot ∨ slot ∈ ground.line ∧ ground.key slot < key

theorem Ground.Reached.head_or_lt {key : UInt64} {slot : Nat} (reached : ground.Reached key slot)
    (member : slot ∈ headSlot :: ground.line) : slot = headSlot ∨ ground.key slot < key := by
  refine reached.imp (fun early => ?_) And.right
  refine rank_injective (mem_spine_of_mem_cons member) ?_
  rw [ground.rank_head] at early
  exact (Nat.le_zero.mp early).trans ground.rank_head.symm

/-- A descent ended with a node kept for each level from 1 up to a height. -/
structure Ground.Kept (ground : Ground) (temporary : List Nat) (key : UInt64) (bound height : Nat)
    (pool : Pool maxLevels Entry) (result : Nat × List Nat) (after : Pool maxLevels Entry) :
    Prop where
  holds : ground.Holds (result.1 :: (result.2 ++ temporary)) after
  tidied : ground.Tidies 0 bound pool after
  member : result.1 ∈ headSlot :: ground.line
  reached : ground.Reached key result.1
  there : after.linkOf result.1 0 ≠ Link.nil
  keeps : Keeps ground.line key after 1 result.2
  length : result.2.length = height - 1

theorem descendKeeping_ends (sound : helping.SoundBefore ground limit) {bound height : Nat}
    {key : UInt64} (boundLt : bound < limit) (covers : ground.Covers bound key) (count : Nat)
    {start : Nat} {kept : List Nat} {pool : Pool maxLevels Entry}
    (holds : ground.Holds (start :: (kept ++ temporary)) pool)
    (member : start ∈ headSlot :: ground.line) (reached : ground.Reached key start)
    (there : ∀ level ≤ count, pool.linkOf start level ≠ Link.nil)
    (near : ground.rank start ≤ bound) (keeps : Keeps ground.line key pool (count + 1) kept)
    (length : kept.length = height - 1 - count) :
    Ends (descendKeeping helping key height count start kept) pool
      (ground.Kept temporary key bound height pool) := by
  induction count generalizing start kept pool with
  | zero =>
    exact Ends.pure ⟨holds, Tidied.refl _ _ _ _ _, member, reached, there 0 (Nat.le_refl 0), keeps,
      length⟩
  | succ count inductionHypothesis =>
    unfold descendKeeping
    refine Ends.andThen (Helping.seek_ends sound holds member
      (there (count + 1) (Nat.le_refl _)) near boundLt covers) fun position middle sought => ?_
    obtain ⟨prev, next⟩ := position
    have prevMember : prev ∈ headSlot :: ground.line := sought.member
    have nextSpine : next ∈ spine ground.line := sought.adjacent.mem_spine
    have prevReached : ground.Reached key prev :=
      Ground.within_trans reached sought.within prevMember
    refine Ends.bind (sought.holds.swap.release_ends nextSpine fun released => ?_)
    have tidied : ground.Tidies 0 bound pool (middle.surrendered next) :=
      (sought.tidied.weaken (Nat.zero_le _) (Nat.le_refl _)).recount _ _
    have nextLimit : next < Link.slotLimit := size_lt_slotLimit (sought.holds.inside nextSpine)
    have walkable : ∀ level ≤ count + 1,
        (middle.surrendered next).linkOf prev level ≠ Link.nil := by
      intro level le
      rw [linkOf_recount]
      refine sought.holds.lanes.down prev prevMember (count + 1) level le ?_
      rw [sought.leads]
      exact Link.ofSlot_ne_nil nextLimit
    have stillKeeps {other : Pool maxLevels Entry} (tidies : ground.Tidies 0 bound pool other) :
        Keeps ground.line key other (count + 1 + 1) kept := by
      refine keeps.mono (List.Subset.refl _) (fun slot => keyOf_congr (tidies.body slot))
        fun slot level => tidies.linkOf_ne_nil
    have prevNear := covers.rank_le near sought.within
    by_cases low : count + 1 < height
    · rw [if_pos low]
      refine Ends.bind (released.retain_ends (mem_spine_of_mem_cons prevMember)
        fun retained => ?_)
      refine (inductionHypothesis retained prevMember prevReached (fun level le => ?_) prevNear
        (show Keeps ground.line key _ (count + 1) (prev :: kept) from
          ⟨⟨prevMember, ?_, ?_⟩, stillKeeps (tidied.recount _ _)⟩) ?_).imp
            fun result last descended => ?_
      · rw [linkOf_recount]
        exact walkable level (Nat.le_succ_of_le le)
      · rw [keyOf_congr (retained.tidied.body prev)]
        exact prevReached.head_or_lt prevMember
      · rw [linkOf_recount]
        exact walkable (count + 1) (Nat.le_refl _)
      · rw [List.length_cons, length]
        omega
      · exact { descended with tidied := (tidied.recount _ _).trans descended.tidied }
    · rw [if_neg low]
      refine (inductionHypothesis released prevMember prevReached
        (fun level le => walkable level (Nat.le_succ_of_le le)) prevNear ?_ ?_).imp
        fun result last descended => ?_
      · have none : kept = [] := List.length_eq_zero_iff.mp (by omega)
        rw [none]
        trivial
      · omega
      · exact { descended with tidied := tidied.trans descended.tidied }

end Descending

/-! ### Replacing a payload -/

variable {maxHeight : Nat} {line free fresh : List Nat} {pending : Nat → Bool} {held : Nat → Nat}
  {pool after : Pool maxLevels Entry}

/-- The payload of a live node with a key is replaced. -/
theorem replacePayload_ends {slot : Nat} {key word : UInt64}
    {condition : Option UInt64 → Pool maxLevels Entry → Prop} (inside : slot < pool.size)
    (inner : slot ≠ tailSlot) (same : keyOf pool slot = key) (alive : ¬ Deleted pool slot)
    (holds : condition (some (pool.bodyOf slot).datum.word)
      (pool.withBody slot { pool.bodyOf slot with datum := ⟨word⟩ })) :
    Ends (replacePayload slot key word) pool condition := by
  unfold replacePayload hasKey
  rw [if_neg inner]
  refine Ends.bind (Ends.bind (bodyAt_ends inside (Ends.pure ?_)))
  rw [if_pos (by rw [show (pool.bodyOf slot).key = key from same]; exact beq_self_eq_true key)]
  refine Ends.bind (bodyAt_ends inside ?_)
  rw [if_neg (show ¬ (pool.bodyOf slot).datum.isDeleted = true from alive)]
  exact Ends.bind (replaceDatum_ends inside (Ends.pure holds))

/-- Any other node is left as it is. -/
theorem replacePayload_ends_of_not {slot : Nat} {key word : UInt64}
    {condition : Option UInt64 → Pool maxLevels Entry → Prop} (inside : slot < pool.size)
    (other : slot = tailSlot ∨ keyOf pool slot ≠ key ∨ Deleted pool slot)
    (holds : condition none pool) : Ends (replacePayload slot key word) pool condition := by
  unfold replacePayload hasKey
  by_cases isTail : slot = tailSlot
  · rw [if_pos isTail]
    refine Ends.bind (Ends.pure ?_)
    rw [if_neg Bool.false_ne_true]
    exact Ends.pure holds
  · rw [if_neg isTail]
    refine Ends.bind (Ends.bind (bodyAt_ends inside (Ends.pure ?_)))
    by_cases same : keyOf pool slot = key
    · rw [if_pos (by rw [show (pool.bodyOf slot).key = key from same]; exact beq_self_eq_true key)]
      refine Ends.bind (bodyAt_ends inside ?_)
      have dead := (other.resolve_left isTail).resolve_left (not_not.mpr same)
      rw [if_pos (show (pool.bodyOf slot).datum.isDeleted = true from dead)]
      exact Ends.pure holds
    · rw [if_neg (by simpa using (show (pool.bodyOf slot).key ≠ key from same))]
      exact Ends.pure holds

/-! ### Placing a fresh node -/

/-- What became of a fresh node that was made for a key: given up for a live node whose payload was
replaced, or linked in front of all nodes whose keys are not smaller. -/
inductive Placed (maxHeight : Nat) (line free : List Nat) (pending : Nat → Bool) (held : Nat → Nat)
    (node : Nat) (key word : UInt64) (height : Nat) (pool : Pool maxLevels Entry) :
    Option UInt64 → Pool maxLevels Entry → Prop
  | replaced {slot : Nat} {freed : List Nat} {after : Pool maxLevels Entry} (member : slot ∈ line)
      (alive : ¬ Deleted pool slot) (same : keyOf pool slot = key)
      (consistent : Consistent maxHeight (without line freed) (freed ++ free) [] pending held after)
      (size : after.size = pool.size)
      (body : ∀ other ∈ line, after.bodyOf other =
        if other = slot then { pool.bodyOf slot with datum := ⟨word⟩ } else pool.bodyOf other)
      (finished : ∀ other ∈ freed, pending other = false) :
      Placed maxHeight line free pending held node key word height pool
        (some (pool.bodyOf slot).datum.payload) after
  | inserted {longer freed : List Nat} {after : Pool maxLevels Entry}
      (alone : ∀ slot ∈ line, keyOf pool slot = key → Deleted pool slot)
      (distinct : (spine longer).Nodup) (part : line.Sublist longer)
      (members : ∀ slot, slot ∈ longer ↔ slot = node ∨ slot ∈ line)
      (order : ∀ slot ∈ line, rank longer slot < rank longer node → keyOf pool slot < key)
      (consistent : Consistent maxHeight (without longer freed) (freed ++ free) []
        (await pending node) held after)
      (size : after.size = pool.size)
      (body : ∀ slot ∈ line, after.bodyOf slot = pool.bodyOf slot)
      (nodeBody : after.bodyOf node = ⟨key, ⟨word⟩, height, height⟩)
      (finished : ∀ other ∈ freed, await pending node other = false) :
      Placed maxHeight line free pending held node key word height pool none after

namespace Consistent

variable {node height : Nat} {key word : UInt64}

theorem holding (consistent : Consistent maxHeight line free fresh pending held pool)
    {temporary : List Nat} (holds : consistent.ground.Holds temporary after) :
    Holding maxHeight line pool.counterOf temporary after := by
  have start : Holding maxHeight line pool.counterOf [] pool :=
    ⟨consistent.roster, consistent.lanes, consistent.outlasting, fun _ _ => rfl⟩
  exact start.walked holds

/-- A fresh node that was linked at all of its levels stands in the line, and the count of its
allocation is the one of its link at level 0. -/
theorem grown {longer : List Nat}
    (consistent : Consistent maxHeight line free [node] pending (addCount held node) pool)
    (part : line.Sublist longer) (members : ∀ slot, slot ∈ longer ↔ slot = node ∨ slot ∈ line)
    (new : node ∉ spine line) (occupied : node ∉ free)
    (holding : Holding maxHeight longer pool.counterOf [] after)
    (grown : Grown longer node pool after)
    (valid : (after.bodyOf node).validHeight = (after.bodyOf node).height) :
    Consistent maxHeight longer free [] (await pending node) held after := by
  have apart : ∀ slot ∈ line, slot ≠ node := fun slot member same =>
    new (mem_spine_of_mem (same ▸ member))
  have back? : ∀ slot, after.back? slot = pool.back? slot := fun slot =>
    Pool.back?_congr (grown.back slot)
  have notFree : ∀ slot ∈ spine longer, slot ∉ free := by
    intro slot member
    rcases mem_spine.mp member with rfl | inLonger | rfl
    · exact consistent.occupied headSlot (head_mem_spine line)
    · rcases (members slot).mp inLonger with rfl | inLine
      · exact occupied
      · exact consistent.occupied slot (mem_spine_of_mem inLine)
    · exact consistent.occupied tailSlot (tail_mem_spine line)
  refine ⟨holding.roster, holding.lanes, ?accounted, notFree, ?covered, ?pendingInside,
    ?linkedPending, ?whole, ?bare⟩
  case accounted =>
    refine (consistent.accounted.of_frame (fun _ => 0) grown.size grown.freeHead
      (fun slot member => ?_) back? (fun _ _ => rfl) fun slot inside => ?_).congr
      fun slot _ => ?_
    · exact grown.outside slot fun inLonger => notFree slot (mem_spine_of_mem_cons inLonger) member
    · have counted := holding.held slot (by rw [grown.size]; exact inside)
      rw [counted]
      rfl
    · have notPending : pending node = false := Bool.eq_false_iff.mpr fun isPending =>
        apart node (consistent.pendingInside node isPending) rfl
      exact placeCount_await notPending held slot
  case covered =>
    intro slot inside
    rw [grown.size] at inside
    rcases consistent.covered slot inside with inSpine | isFresh | isFree
    · exact Or.inl ((spine_sublist part).subset inSpine)
    · exact Or.inl (mem_spine_of_mem ((members slot).mpr (Or.inl (List.mem_singleton.mp isFresh))))
    · exact Or.inr (Or.inr isFree)
  case pendingInside =>
    intro slot isPending
    rw [members]
    exact (await_eq_true_iff.mp isPending).symm.imp_right (consistent.pendingInside slot)
  case linkedPending =>
    intro slot member level linked
    rw [await_eq_true_iff]
    rcases (members slot).mp member with same | inLine
    · exact Or.inr same
    · exact Or.inl (consistent.linkedPending slot inLine level
        (grown.linked slot (apart slot inLine) level linked))
  case whole =>
    intro slot member
    rcases (members slot).mp member with rfl | inLine
    · exact valid
    · rw [grown.body slot (apart slot inLine)]
      exact consistent.whole slot inLine
  case bare =>
    intro slot absent
    rw [back?]
    exact consistent.bare slot fun inLine => absent ((members slot).mpr (Or.inr inLine))

end Consistent

/-- A node was filled for an insert and is not linked yet. -/
structure Filled (maxHeight : Nat) (line free : List Nat) (node : Nat) (key word : UInt64)
    (height : Nat) (pool : Pool maxLevels Entry) : Prop where
  new : node ∉ spine line
  occupied : node ∉ free
  inside : node < pool.size
  body : pool.bodyOf node = ⟨key, ⟨word⟩, height, 0⟩
  alive : lowBit word = false
  heightPos : 1 ≤ height
  heightLe : height ≤ maxHeight
  nil : ∀ level, pool.linkOf node level = Link.nil

namespace Filled

variable {node height : Nat} {key word : UInt64}

/-- Walks leave the node as it is. -/
theorem tidied (filled : Filled maxHeight line free node key word height pool)
    {dead : Nat → Prop} {level bound : Nat} (tidied : Tidied line dead level bound pool after) :
    Filled maxHeight line free node key word height after :=
  { filled with
    inside := by
      rw [tidied.size]
      exact filled.inside
    body := (tidied.body node).trans filled.body
    nil := fun level => (tidied.nil node level).mpr (filled.nil level) }

theorem keyOf_eq (filled : Filled maxHeight line free node key word height pool) :
    keyOf pool node = key := by
  unfold keyOf
  rw [filled.body]

theorem not_deleted (filled : Filled maxHeight line free node key word height pool) :
    ¬ Deleted pool node := by
  unfold Deleted
  rw [filled.body]
  exact Bool.eq_false_iff.mp filled.alive

theorem height_eq (filled : Filled maxHeight line free node key word height pool) :
    (pool.bodyOf node).height = height := by rw [filled.body]

theorem not_mem (filled : Filled maxHeight line free node key word height pool) : node ∉ line :=
  fun member => filled.new (mem_spine_of_mem member)

end Filled

namespace Consistent

variable {node height : Nat} {key word : UInt64}

/-- The filled node may take its place in the line, although it is not linked yet. -/
theorem holding_entered (consistent : Consistent maxHeight line free fresh pending held pool)
    (filled : Filled maxHeight line free node key word height pool)
    (alone : ∀ slot ∈ line, keyOf pool slot = key → Deleted pool slot) {temporary : List Nat}
    (holds : consistent.ground.Holds temporary after) :
    Holding maxHeight (entered line after node) pool.counterOf temporary after := by
  have held := consistent.holding holds
  have sameBody : ∀ slot, after.bodyOf slot = pool.bodyOf slot := holds.tidied.body
  have still : Filled maxHeight line free node key word height after := filled.tidied holds.tidied
  have nowhere : after.back? node = none :=
    (Pool.back?_congr (holds.tidied.back node)).trans (consistent.bare node filled.not_mem)
  have valid : (after.bodyOf node).validHeight = 0 := by rw [still.body]
  refine ⟨held.roster.entered still.new still.inside still.not_deleted ?_ ?_ ?_ nowhere
    fun slot member same => ?_, held.lanes.entered held.roster.distinct still.new still.nil valid,
    fun slot inSpine => ?_, held.held⟩
  · rw [still.height_eq]
    exact still.heightPos
  · rw [still.height_eq]
    exact still.heightLe
  · rw [valid]
    exact Nat.zero_le _
  · rw [still.keyOf_eq, keyOf_congr (sameBody slot)] at same
    exact (deleted_congr (sameBody slot)).mpr (alone slot member same)
  · rcases mem_spine.mp inSpine with rfl | isEntered | rfl
    · exact consistent.outlasting headSlot (head_mem_spine line)
    · rcases mem_entered.mp isEntered with rfl | inLine
      · exact consistent.accounted.two_le_counter filled.inside filled.occupied
      · exact consistent.outlasting slot (mem_spine_of_mem inLine)
    · exact consistent.outlasting tailSlot (tail_mem_spine line)

/-- A filled node stands in front of all nodes whose keys are not smaller. -/
theorem rank_entered_lt_iff
    (consistent : Consistent maxHeight line free fresh pending held pool)
    (filled : Filled maxHeight line free node key word height pool) {temporary : List Nat}
    (holds : consistent.ground.Holds temporary after) {slot : Nat} (member : slot ∈ line) :
    rank (entered line after node) slot < rank (entered line after node) node ↔
      keyOf pool slot < key := by
  have still : Filled maxHeight line free node key word height after := filled.tidied holds.tidied
  have muster := (consistent.holding holds).roster.toMuster
  have sameBody : after.bodyOf slot = pool.bodyOf slot := holds.tidied.body slot
  rw [muster.rank_entered_lt_iff still.new member, still.keyOf_eq, keyOf_congr sameBody]

/-- What was found in front of the key of a filled node stands in front of the node. -/
theorem rank_lt_entered
    (consistent : Consistent maxHeight line free fresh pending held pool)
    (filled : Filled maxHeight line free node key word height pool) {temporary : List Nat}
    (holds : consistent.ground.Holds temporary after)
    (place : Holding maxHeight (entered line after node) pool.counterOf temporary after)
    {prev : Nat} (prevMember : prev ∈ headSlot :: line)
    (prevBefore : prev = headSlot ∨ keyOf pool prev < key) :
    rank (entered line after node) prev < rank (entered line after node) node := by
  rcases List.mem_cons.mp prevMember with rfl | inLine
  · rw [rank_head]
    exact rank_pos place.roster.distinct (mem_entered.mpr (Or.inl rfl))
  · refine (consistent.rank_entered_lt_iff filled holds inLine).mpr (prevBefore.resolve_left ?_)
    rintro rfl
    exact head_not_mem consistent.roster.distinct inLine

/-- What was found behind the key of a filled node stands behind the node. -/
theorem entered_lt_rank
    (consistent : Consistent maxHeight line free fresh pending held pool)
    (filled : Filled maxHeight line free node key word height pool) {temporary : List Nat}
    (holds : consistent.ground.Holds temporary after)
    (place : Holding maxHeight (entered line after node) pool.counterOf temporary after)
    {next : Nat} (nextMember : next = tailSlot ∨ next ∈ line)
    (nextBehind : next = tailSlot ∨ key ≤ keyOf pool next) :
    rank (entered line after node) node < rank (entered line after node) next := by
  have still : Filled maxHeight line free node key word height after := filled.tidied holds.tidied
  have member : node ∈ entered line after node := mem_entered.mpr (Or.inl rfl)
  rcases nextMember with rfl | inLine
  · exact rank_lt_rank_tail place.roster.distinct (List.mem_cons_of_mem _ member)
  · refine place.roster.rank_lt_of_alive member still.not_deleted
      (mem_entered.mpr (Or.inr inLine)) (fun same => still.not_mem (same ▸ inLine)) ?_
    have sameBody : after.bodyOf next = pool.bodyOf next := holds.tidied.body next
    rw [still.keyOf_eq, keyOf_congr sameBody]
    refine nextBehind.resolve_left ?_
    rintro rfl
    exact tail_not_mem consistent.roster.distinct inLine

/-- Linking a filled node at level 0 between two nodes that were found for it, which are then given
up. -/
theorem linkBottom_ends
    (consistent : Consistent maxHeight line free fresh pending held pool)
    (filled : Filled maxHeight line free node key word height pool)
    (alone : ∀ slot ∈ line, keyOf pool slot = key → Deleted pool slot)
    {prev next : Nat} {kept : List Nat} {middle : Pool maxLevels Entry}
    (holds : consistent.ground.Holds (prev :: next :: kept) middle)
    (prevMember : prev ∈ headSlot :: line) (leads : middle.linkOf prev 0 = Link.ofSlot next)
    (adjacent : Adjacent line middle 0 prev next)
    (prevBefore : prev = headSlot ∨ keyOf pool prev < key)
    (nextBehind : next = tailSlot ∨ key ≤ keyOf pool next) {Outcome : Type}
    {rest : Unit → Walk Outcome} {condition : Outcome → Pool maxLevels Entry → Prop}
    (continues : ∀ linked,
      Holding maxHeight (entered line middle node) pool.counterOf kept linked →
      Grown (entered line middle node) node middle linked →
      linked.linkOf node 0 ≠ Link.nil → (∀ level, 0 < level → linked.linkOf node level = Link.nil) →
      Ends (rest ()) linked condition) :
    Ends (linkTo next >>= fun behind => setLink node 0 behind >>= fun _ =>
      swingTo node prev next 0 >>= fun _ => releaseAll [next, prev] >>= rest) middle condition := by
  have place := consistent.holding_entered filled alone holds
  have still : Filled maxHeight line free node key word height middle :=
    filled.tidied holds.tidied
  have part : line.Sublist (entered line middle node) := entered_sublist
  have member : node ∈ entered line middle node := mem_entered.mpr (Or.inl rfl)
  have prevEntered : prev ∈ headSlot :: entered line middle node :=
    List.cons_subset_cons headSlot part.subset prevMember
  have nextEntered : next ∈ spine (entered line middle node) :=
    (spine_sublist part).subset adjacent.mem_spine
  have prevFront := consistent.rank_lt_entered filled holds place prevMember prevBefore
  have nextRear := consistent.entered_lt_rank filled holds place
    (adjacent.ends.imp_right And.left) nextBehind
  have prevInside := place.roster.inside prev (mem_spine_of_mem_cons prevEntered)
  have nextInside := place.roster.inside next nextEntered
  have apart : prev ≠ node := fun same => absurd (same ▸ prevFront) (Nat.lt_irrefl _)
  have linked := place.interposed prevEntered member nextEntered leads (still.nil 0)
    (fun lower low => absurd low (Nat.not_lt_zero _))
    (by rw [still.height_eq]; exact still.heightPos) prevFront nextRear
  have joined : Grown (entered line middle node) node middle (middle.interposed prev node next 0) :=
    Grown.interposed (by decide) prevInside still.inside nextInside prevEntered member leads
  have nodeLinks : ∀ level, (middle.interposed prev node next 0).linkOf node level =
      if level = 0 then Link.ofSlot next else Link.nil := by
    intro level
    rw [linkOf_interposed (by decide) prevInside still.inside,
      if_neg fun same => apart same.1.symm, still.nil]
    simp
  have prevThere : middle.linkOf prev 0 ≠ Link.nil := by
    rw [leads]
    exact Link.ofSlot_ne_nil (size_lt_slotLimit nextInside)
  refine Ends.bind (linkTo_ends nextInside ?_)
  refine Ends.bind (setLink_ends still.inside (still.height_eq ▸ still.heightPos) (by decide) ?_)
  refine Ends.bind (swingTo_ends (by rw [size_withLink]; exact still.inside)
    (by rwa [size_withLink]) (by rwa [size_withLink]) ?_ (by decide) ?_ ?_)
  · rw [bodyOf_withLink still.inside]
    exact holds.fits prevMember prevThere
  · rw [linkOf_withLink still.inside (by decide), if_neg fun same => apart same.1]
    exact leads
  show Ends _ (middle.interposed prev node next 0) _
  refine Ends.bind (linked.releaseBoth_ends (mem_spine_of_mem_cons prevEntered) nextEntered
    fun done => ?_)
  refine continues _ done ((joined.surrendered next).surrendered prev) ?_ fun level above => ?_
  · rw [linkOf_recount, linkOf_recount, nodeLinks, if_pos rfl]
    exact Link.ofSlot_ne_nil (size_lt_slotLimit nextInside)
  · rw [linkOf_recount, linkOf_recount, nodeLinks, if_neg (Nat.ne_of_gt above)]

/-- A node that was linked at all of its levels is recorded to be, and the count that protected it
is given up. -/
theorem concludeLinking_ends
    (consistent : Consistent maxHeight line free [node] pending
      (addCount (addCount held node) node) pool)
    (filled : Filled maxHeight line free node key word height pool)
    (alone : ∀ slot ∈ line, keyOf pool slot = key → Deleted pool slot)
    {middle raised : Pool maxLevels Entry} {temporary : List Nat}
    (holds : consistent.ground.Holds temporary middle)
    (holding : Holding maxHeight (entered line middle node) pool.counterOf [] raised)
    (grown : Grown (entered line middle node) node pool raised)
    (allThere : ∀ level < height, raised.linkOf node level ≠ Link.nil) :
    Ends (setValidHeight node height >>= fun _ => requireLive node >>= fun _ => release node)
      raised fun _ after =>
        Placed maxHeight line free pending held node key word height pool none after := by
  have member : node ∈ entered line middle node := mem_entered.mpr (Or.inl rfl)
  have raisedInside := holding.roster.inside node (mem_spine_of_mem member)
  have raisedHeight : (raised.bodyOf node).height = height := by
    rw [grown.height, filled.height_eq]
  have raisedAlive := (grown.deleted_iff node).not.mpr filled.not_deleted
  have validHolding := holding.withValidHeight member raisedAlive
    (Nat.le_of_eq raisedHeight.symm) allThere
  have toValid := grown.trans (Grown.withValidHeight raisedInside height)
  have validInside := validHolding.roster.inside node (mem_spine_of_mem member)
  have validBody : (raised.withBody node
      { raised.bodyOf node with validHeight := height }).bodyOf node =
        { raised.bodyOf node with validHeight := height } :=
    (bodyOf_withBody raisedInside node).trans (if_pos rfl)
  unfold setValidHeight
  refine Ends.bind (changeBody_ends raisedInside ?_)
  refine Ends.bind (requireLive_ends validInside
    ((toValid.deleted_iff node).not.mpr filled.not_deleted) ?_)
  have whole := consistent.grown entered_sublist (fun slot => mem_entered) filled.new
    filled.occupied validHolding toValid (by rw [validBody]; exact raisedHeight.symm)
  refine (whole.release_ends validInside).imp fun _ last thinned => ?_
  obtain ⟨freed, thinned⟩ := thinned
  refine Placed.inserted alone whole.roster.distinct entered_sublist (fun slot => mem_entered)
    (fun slot inLine before => (consistent.rank_entered_lt_iff filled holds inLine).mp before)
    thinned.consistent (thinned.size.trans toValid.size) (fun slot inLine => ?_) ?_
    thinned.finished
  · rw [thinned.body, toValid.body slot fun same => filled.not_mem (same ▸ inLine)]
  · obtain ⟨valid, grownBody⟩ := toValid.nodeBody
    rw [thinned.body, grownBody]
    rw [validBody] at grownBody
    have sameValid := congrArg Entry.validHeight grownBody
    rw [filled.body]
    exact congrArg (Entry.mk key ⟨word⟩ height) sameValid.symm

/-- Linking a filled node at the place that was found for it. -/
theorem linkFresh_ends
    (consistent : Consistent maxHeight line free [node] pending
      (addCount (addCount held node) node) pool)
    (filled : Filled maxHeight line free node key word height pool)
    (alone : ∀ slot ∈ line, keyOf pool slot = key → Deleted pool slot)
    {prev next : Nat} {kept : List Nat} {middle : Pool maxLevels Entry}
    (holds : consistent.ground.Holds (prev :: next :: kept) middle)
    (prevMember : prev ∈ headSlot :: line) (leads : middle.linkOf prev 0 = Link.ofSlot next)
    (adjacent : Adjacent line middle 0 prev next)
    (prevBefore : prev = headSlot ∨ keyOf pool prev < key)
    (nextBehind : next = tailSlot ∨ key ≤ keyOf pool next)
    (keeps : Keeps line key middle 1 kept) (length : kept.length = height - 1) :
    Ends (linkFresh (helpingFor maxHeight pool.size) node prev next kept key height) middle
      fun _ after => Placed maxHeight line free pending held node key word height pool none
        after := by
  have part : line.Sublist (entered line middle node) := entered_sublist
  have member : node ∈ entered line middle node := mem_entered.mpr (Or.inl rfl)
  unfold linkFresh
  refine consistent.linkBottom_ends filled alone holds prevMember leads adjacent prevBefore
    nextBehind fun linked holding bottom linkedThere nilAbove => ?_
  have start : Grown (entered line middle node) node pool linked :=
    (Grown.of_tidied holds.tidied part.subset).trans bottom
  have keptAlone : Holding maxHeight (entered line middle node) pool.counterOf (kept ++ [])
      linked := by
    rw [List.append_nil]
    exact holding
  have startHeight : (linked.bodyOf node).height = height := by
    rw [start.height, filled.height_eq]
  have positive := filled.heightPos
  refine Ends.andThen (Holding.linkUpwards_ends (height - 1) keptAlone start.size
    ((start.keyOf node).trans filled.keyOf_eq) member
    ((start.deleted_iff node).not.mpr filled.not_deleted)
    (keeps.mono part.subset bottom.keyOf bottom.there) length
    (fun lower low => Nat.lt_one_iff.mp low ▸ linkedThere)
    (fun higher above => nilAbove higher above)
    (by omega)) fun _ raised linkedAbove => ?_
  obtain ⟨raisedHolding, raisedGrown, allThere⟩ := linkedAbove
  rw [startHeight] at allThere
  exact consistent.concludeLinking_ends filled alone holds raisedHolding (start.trans raisedGrown)
    allThere

/-- The payload of the live node with the key was replaced: the fresh node is given up. -/
theorem replaceFresh_ends
    (consistent : Consistent maxHeight line free [node] pending
      (addCount (addCount held node) node) pool)
    (filled : Filled maxHeight line free node key word height pool) (unheld : held node = 0)
    {prev next : Nat} {kept : List Nat} {middle : Pool maxLevels Entry}
    (holds : consistent.ground.Holds (prev :: next :: kept) middle)
    (prevMember : prev ∈ headSlot :: line) (keeps : Keeps line key middle 1 kept)
    (nextMember : next ∈ line) (alive : ¬ Deleted pool next) (same : keyOf pool next = key) :
    Ends (do
        releaseAll [next, prev]
        releaseAll kept
        releaseAll [node, node]
        pure (some (middle.bodyOf next).datum.word))
      (middle.withBody next { middle.bodyOf next with datum := ⟨word⟩ })
      (Placed maxHeight line free pending held node key word height pool) := by
  have nextSpine : next ∈ spine line := mem_spine_of_mem nextMember
  have sameBody : ∀ slot, middle.bodyOf slot = pool.bodyOf slot := holds.tidied.body
  have walked := consistent.walked holds fun slot member => by
    rcases List.mem_cons.mp member with rfl | rest
    · exact mem_spine_of_mem_cons prevMember
    · rcases List.mem_cons.mp rest with rfl | inKept
      · exact nextSpine
      · exact mem_spine_of_mem_cons (keeps.mem inKept)
  have nextInside := walked.inside nextMember
  have clear : lowBit (middle.bodyOf next).datum.word = false := by
    rw [sameBody]
    exact Bool.eq_false_iff.mpr alive
  have replaced := walked.withBody nextMember
    { middle.bodyOf next with datum := ⟨word⟩ } rfl rfl rfl fun dead =>
      absurd ((deleted_congr (sameBody next)).mp dead) alive
  have nodeInside : node <
      (middle.withBody next { middle.bodyOf next with datum := ⟨word⟩ }).size := by
    rw [size_withBody, holds.size]
    exact filled.inside
  have counted : ∀ slot, held slot + ([next, prev] ++ (kept ++ [node, node])).count slot =
      addCount (addCount held node) node slot + (prev :: next :: kept).count slot := by
    intro slot
    rw [addCount_pair]
    simp only [List.count_append, List.count_cons, List.count_nil]
    omega
  have known : ∀ slot ∈ [next, prev] ++ (kept ++ [node, node]),
      slot ∈ spine line ∨ slot = node := by
    intro slot member
    simp only [List.mem_append, List.mem_cons, List.not_mem_nil, or_false, or_self] at member
    rcases member with (rfl | rfl) | inKept | isNode
    · exact Or.inl nextSpine
    · exact Or.inl (mem_spine_of_mem_cons prevMember)
    · exact Or.inl (mem_spine_of_mem_cons (keeps.mem inKept))
    · exact Or.inr isNode
  -- The three releases are one of all the slots.
  rw [← bind_assoc (releaseAll kept), ← releaseAll_append, ← bind_assoc, ← releaseAll_append]
  refine Ends.andThen (Consistent.releaseAll_ends _ (replaced.congr counted)
    fun slot member => ?_) fun _ last thinned => ?_
  · rcases known slot member with inSpine | rfl
    · rw [size_withBody]
      exact walked.roster.inside slot inSpine
    · exact nodeInside
  obtain ⟨freed, all⟩ := thinned
  have settled := all.consistent.settled fun slot isFresh => by
    rw [List.mem_singleton.mp isFresh]
    refine all.consistent.mem_free (by rw [all.size]; exact nodeInside) (fun inSpine => ?_) unheld
    exact filled.new ((spine_sublist (without_sublist line _)).subset inSpine)
  have payload : (middle.bodyOf next).datum.word = (pool.bodyOf next).datum.payload := by
    rw [← sameBody]
    exact (clearLowBit_of_lowBit_eq_false clear).symm
  rw [payload]
  refine Ends.pure (Placed.replaced nextMember alive same settled ?_ (fun other member => ?_)
    all.finished)
  · rw [all.size, size_withBody, holds.size]
    rfl
  · rw [all.body, bodyOf_withBody nextInside, sameBody, sameBody]

/-- If the first node whose key is not smaller is no live node with the key, there is none. -/
theorem deleted_of_not_found (consistent : Consistent maxHeight line free fresh pending held pool)
    {temporary : List Nat} (holds : consistent.ground.Holds temporary after) {prev next : Nat}
    (prevMember : prev ∈ headSlot :: line) (adjacent : Adjacent line after 0 prev next)
    (prevBefore : prev = headSlot ∨ keyOf pool prev < key)
    (nextBehind : next = tailSlot ∨ key ≤ keyOf pool next)
    (notFound : next = tailSlot ∨ keyOf pool next ≠ key ∨ Deleted pool next) :
    ∀ slot ∈ line, keyOf pool slot = key → Deleted pool slot := by
  intro slot member same
  by_contra alive
  have distinct := consistent.roster.distinct
  have before : rank line prev < rank line slot := by
    rcases List.mem_cons.mp prevMember with rfl | inLine
    · rw [rank_head]
      exact rank_pos distinct member
    · have smaller : keyOf pool prev < key := prevBefore.resolve_left fun isHead =>
        head_not_mem distinct (isHead ▸ inLine)
      rw [← same] at smaller
      exact consistent.ground.rank_lt_of_key_lt inLine member smaller
  have behind := adjacent.between slot member
    (holds.linked_of_alive consistent.lanes consistent.whole member alive) before
  have inner : next ≠ tailSlot := by
    rintro rfl
    exact Nat.not_lt_of_le behind (rank_lt_rank_tail distinct (List.mem_cons_of_mem _ member))
  have nextMember := adjacent.mem_of_ne_tail inner
  have keyLe : keyOf pool next ≤ keyOf pool slot :=
    consistent.ground.key_le_of_rank_le nextMember member behind
  have sameKey : keyOf pool next = key :=
    UInt64.le_antisymm (same ▸ keyLe) (nextBehind.resolve_left inner)
  have dead := (notFound.resolve_left inner).resolve_left (not_not.mpr sameKey)
  have apart : rank line next ≠ rank line slot := fun equal =>
    alive (rank_injective (mem_spine_of_mem nextMember) equal ▸ dead)
  rcases consistent.roster.sorted next nextMember slot member (Nat.lt_of_le_of_ne behind apart)
    with less | ⟨-, slotDead⟩
  · rw [sameKey, same] at less
    exact UInt64.lt_irrefl _ less
  · exact alive slotDead

/-- An insert of a filled node: the payload of the live node with its key is replaced, or there is
none and the node is linked. -/
theorem placeFilled_ends
    (consistent : Consistent maxHeight line free [node] pending
      (addCount (addCount held node) node) pool)
    (filled : Filled maxHeight line free node key word height pool) (unheld : held node = 0) :
    Ends (do
        retain headSlot
        let (prev, kept) ← descendKeeping (helpingFor maxHeight pool.size) key height
          (maxHeight - 1) headSlot []
        let (prev, next) ← (helpingFor maxHeight pool.size).seek prev 0 key
        let previous ← replacePayload next key word
        match previous with
        | some previous => do
          releaseAll [next, prev]
          releaseAll kept
          releaseAll [node, node]
          pure (some previous)
        | none => do
          linkFresh (helpingFor maxHeight pool.size) node prev next kept key height
          pure none) pool
      (Placed maxHeight line free pending held node key word height pool) := by
  have heights := consistent.roster.heights
  have sound := consistent.sound
  have covers : consistent.ground.Covers line.length key := fun slot member _ =>
    rank_le_length consistent.roster.distinct (List.mem_cons_of_mem _ member)
  have headNear : consistent.ground.rank headSlot ≤ line.length :=
    rank_le_length consistent.roster.distinct List.mem_cons_self
  have heightLe := filled.heightLe
  refine Ends.bind (consistent.holds.retain_ends (head_mem_spine _) fun retained => ?_)
  refine Ends.andThen (descendKeeping_ends sound (by omega) covers (maxHeight - 1)
    retained List.mem_cons_self
    (Or.inl (Nat.le_refl _)) (fun level le => ?_) headNear trivial ?_)
    fun result descended kept => ?_
  · exact Helping.head_there retained (show level < maxHeight by omega)
  · simp
    omega
  refine Ends.andThen (Helping.seek_ends sound kept.holds kept.member kept.there
    (rank_le_length consistent.roster.distinct kept.member) (by omega) covers)
    fun position middle sought => ?_
  obtain ⟨start, keptNodes⟩ := result
  obtain ⟨prev, next⟩ := position
  have prevMember : prev ∈ headSlot :: line := sought.member
  have adjacent : Adjacent line middle 0 prev next := sought.adjacent
  have prevReached : consistent.ground.Reached key prev :=
    Ground.within_trans kept.reached sought.within prevMember
  have prevBefore : prev = headSlot ∨ keyOf pool prev < key := prevReached.head_or_lt prevMember
  have nextBehind : next = tailSlot ∨ key ≤ keyOf pool next := sought.reached
  have holds : consistent.ground.Holds (prev :: next :: keptNodes) middle := by
    have found := sought.holds
    rwa [List.append_nil] at found
  have sameBody : ∀ slot, middle.bodyOf slot = pool.bodyOf slot := holds.tidied.body
  have keeps : Keeps line key middle 1 keptNodes := by
    refine kept.keeps.mono (List.Subset.refl _) (fun slot => ?_) fun slot level =>
      sought.tidied.linkOf_ne_nil
    exact keyOf_congr (sought.tidied.body slot)
  have nextInside := holds.inside adjacent.mem_spine
  have length : keptNodes.length = height - 1 := kept.length
  show Ends (replacePayload next key word >>= _) middle _
  by_cases found : next = tailSlot ∨ keyOf pool next ≠ key ∨ Deleted pool next
  · have alone := consistent.deleted_of_not_found holds prevMember adjacent prevBefore nextBehind
      found
    refine Ends.bind (replacePayload_ends_of_not nextInside ?_ ?_)
    · rw [keyOf_congr (sameBody next), deleted_congr (sameBody next)]
      exact found
    · exact Ends.andThen (consistent.linkFresh_ends filled alone holds prevMember sought.leads
        adjacent prevBefore nextBehind keeps length) fun _ after placed => Ends.pure placed
  · obtain ⟨inner, rest⟩ := not_or.mp found
    obtain ⟨same, alive⟩ := not_or.mp rest
    have nextMember := adjacent.mem_of_ne_tail inner
    refine Ends.bind (replacePayload_ends nextInside inner
      (by rw [keyOf_congr (sameBody next)]; exact not_not.mp same)
      ((deleted_congr (sameBody next)).not.mpr alive) ?_)
    exact consistent.replaceFresh_ends filled unheld holds prevMember keeps nextMember alive
      (not_not.mp same)

/-- An insert fills the fresh node and places it. -/
theorem placeFresh_ends
    (consistent : Consistent maxHeight line free [node] pending (addCount held node) pool)
    (new : node ∉ spine line) (occupied : node ∉ free) (inside : node < pool.size)
    (nil : ∀ level, pool.linkOf node level = Link.nil) (alive : lowBit word = false)
    (heightPos : 1 ≤ height) (heightLe : height ≤ maxHeight) (unheld : held node = 0) :
    Ends (placeFresh (helpingFor maxHeight pool.size) maxHeight node key word height) pool
      (Placed maxHeight line free pending held node key word height pool) := by
  have apart : ∀ slot ∈ line, slot ≠ node := fun slot member same =>
    new (mem_spine_of_mem (same ▸ member))
  have bodied := consistent.withFreshBody inside new ⟨key, ⟨word⟩, height, 0⟩
  have bodyInside : node < (pool.withBody node ⟨key, ⟨word⟩, height, 0⟩).size := by
    rwa [size_withBody]
  have retained := bodied.retained bodyInside occupied
  have body : ∀ slot ∈ line, ((pool.withBody node ⟨key, ⟨word⟩, height, 0⟩).retained node).bodyOf
      slot = pool.bodyOf slot := by
    intro slot member
    rw [bodyOf_recount, bodyOf_withBody inside, if_neg (apart slot member)]
  have filled : Filled maxHeight line free node key word height
      ((pool.withBody node ⟨key, ⟨word⟩, height, 0⟩).retained node) := by
    refine ⟨new, occupied, by rwa [size_recount], ?_, alive, heightPos, heightLe, fun level => ?_⟩
    · rw [bodyOf_recount, bodyOf_withBody inside, if_pos rfl]
    · rw [linkOf_recount, linkOf_withBody inside]
      exact nil level
  have size : ((pool.withBody node ⟨key, ⟨word⟩, height, 0⟩).retained node).size = pool.size := by
    rw [size_recount, size_withBody]
  unfold placeFresh
  refine Ends.bind (changeBody_ends inside (Ends.bind (retain_ends bodyInside ?_)))
  have placing := retained.placeFilled_ends filled unheld
  rw [size] at placing
  refine placing.imp fun previous after placed => ?_
  cases placed with
  | @replaced slot freed _ member slotAlive same final finalSize finalBody finished =>
    rw [body slot member] at finalBody
    rw [body slot member]
    refine Placed.replaced member ((deleted_congr (body slot member)).not.mp slotAlive)
      ((keyOf_congr (body slot member)).symm.trans same) final (finalSize.trans size)
      (fun other otherMember => ?_) finished
    rw [finalBody other otherMember, body other otherMember]
  | inserted alone distinct part members order final finalSize finalBody nodeBody finished =>
    refine Placed.inserted (fun slot member same => ?_) distinct part members
      (fun slot member before => ?_) final (finalSize.trans size)
        (fun slot member => ?_) nodeBody finished
    · exact (deleted_congr (body slot member)).mp
        (alone slot member ((keyOf_congr (body slot member)).trans same))
    · rw [← keyOf_congr (body slot member)]
      exact order slot member before
    · rw [finalBody slot member, body slot member]

end Consistent

end PriorityQueue

end PooledContainers
