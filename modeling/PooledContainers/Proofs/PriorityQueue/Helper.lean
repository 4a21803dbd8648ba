/-
The helper is sound. Helping a node walks only on nodes in front of it in the line: those with a
smaller key, and newer ones with its own key behind which it is looked for. So the layers of the
helper need not be more than the rank of the node, and a node that is linked at a level is always
found there and taken off it.
-/

import PooledContainers.Proofs.PriorityQueue.Looking

namespace PooledContainers

namespace PriorityQueue

open Line Operation

variable {ground : Ground} {helping : Helping} {temporary : List Nat}
  {pool : Pool maxLevels Entry}

/-! ### Taking a node off a level -/

/-- A level that a deleted node reaches can be walked on from it. -/
theorem Lanes.there_of_dead (lanes : ground.Laned pool) {node level : Nat}
    (member : node ∈ ground.line) (dead : ground.Dead node) (reached : level < ground.height node) :
    pool.linkOf node level ≠ Link.nil := by
  refine lanes.valid node (List.mem_cons_of_mem _ member) level ?_
  rw [ground.roster.validDeleted node member dead]
  exact reached

/-- The link of a predecessor is swung past a deleted node that it names. -/
theorem swingPast_ends {node level : Nat} (member : node ∈ ground.line) (dead : ground.Dead node)
    {prev next : Nat} (holds : ground.Holds (prev :: temporary) pool)
    (prevMember : prev ∈ headSlot :: ground.line) (before : ground.rank prev < ground.rank node)
    (leads : pool.linkOf prev level = Link.ofSlot node)
    (nodeLeads : pool.next? level node = some next) :
    Ends (swingPast node prev level (pool.linkOf node level)) pool fun answer after =>
      answer = prev ∧ ground.Helped temporary node level pool prev after ∧
        ((∀ hint, ¬ StaleHint after level node hint) → Heeded pool after) := by
  have prevInside := holds.inside (mem_spine_of_mem_cons prevMember)
  have nodeInside := holds.inside (mem_spine_of_mem member)
  have low : level < ground.maxHeight := holds.lanes.level_lt (List.mem_cons_of_mem _ member)
    (Pool.Linked.of_next? nodeLeads).ne_nil
  have reached : level < maxLevels := Nat.lt_of_lt_of_le low ground.roster.heights.2
  have apart : prev ≠ node := fun same => absurd (same ▸ before) (Nat.lt_irrefl _)
  have nextLimit := Link.slot_lt_of_slot? nodeLeads
  have swung : (pool.linkOf node level).setMark false = Link.ofSlot next :=
    Link.setMark_false_of_slot? nodeLeads
  have prevAfter : (pool.bypassed prev node next level).linkOf prev level = Link.ofSlot next :=
    Pool.linkOf_bypassed_prev reached prevInside nodeInside apart
  have tidied : ground.Tidies level (ground.rank node) pool (pool.bypassed prev node next level) :=
    Tidied.bypass reached prevInside nodeInside prevMember member dead (Nat.le_refl _) before
      (Nat.le_refl _) leads nodeLeads
  have prevThere : pool.linkOf prev level ≠ Link.nil := by
    rw [leads]
    exact Link.ofSlot_ne_nil (Pool.size_lt_slotLimit nodeInside)
  have nodeFits : level < (pool.bodyOf node).height :=
    holds.fits (List.mem_cons_of_mem _ member) (Pool.Linked.of_next? nodeLeads).ne_nil
  unfold swingPast
  rw [swung]
  refine Ends.bind (Pool.linkTo_ends nodeInside ?_)
  refine Ends.bind (swapLink_ends prevInside (holds.fits prevMember prevThere) reached leads ?_)
  rw [if_pos rfl]
  refine Ends.bind (setLink_ends (by rwa [Pool.size_withLink])
    (by rwa [Pool.bodyOf_withLink prevInside]) reached (Ends.pure ?_))
  refine ⟨rfl, ⟨?holds, tidied, prevMember, before, ?there, ?off, ?handed⟩,
    Heeded.bypass reached prevInside nodeInside nextLimit tidied⟩
  case holds =>
    refine holds.of_tidied tidied (rank_le_length ground.roster.distinct
      (List.mem_cons_of_mem _ member)) ?_ ?_
    · exact holds.lanes.bypass reached prevInside nodeInside prevMember member dead leads nodeLeads
        before
    · exact holds.held.congr (Pool.size_bypassed _ _ _ _)
        (Pool.counterOf_bypassed prevInside nodeInside)
  case there =>
    show (pool.bypassed prev node next level).linkOf prev level ≠ Link.nil
    rw [prevAfter]
    exact Link.ofSlot_ne_nil nextLimit
  case off => exact Pool.linkOf_bypassed_node reached prevInside nodeInside
  case handed =>
    intro other otherLeads
    show (pool.bypassed prev node next level).linkOf prev level = Link.ofSlot other
    rw [prevAfter, Option.some.inj (nodeLeads.symm.trans otherLeads)]

/-- A walk set out from a start to take a node off a level. -/
structure Ground.Bypassed (ground : Ground) (temporary : List Nat) (node level bound start : Nat)
    (pool : Pool maxLevels Entry) (prev : Nat) (after : Pool maxLevels Entry) : Prop where
  holds : ground.Holds (prev :: temporary) after
  tidied : ground.Tidies level (max bound (ground.rank node)) pool after
  member : prev ∈ headSlot :: ground.line
  /-- A walk up to the node takes it off. -/
  helped : bound < ground.rank node → ground.Helped temporary node level pool prev after
  /-- If the node is off already, nothing happens. -/
  idle : pool.linkOf node level = Link.cleared → prev = start ∧ after = pool
  vouched : pool.linkOf node level ≠ Link.cleared → ground.Vouched level prev after
  /-- Nothing gets out of date if the walk starts from where the node's own reference back leads. -/
  heeded : (∀ hint, ground.start.back? node = some hint → level < ground.validHeight hint →
    start = hint) → Heeded pool after

section Bypassed

variable {node level bound start : Nat} {answer : Nat × Bool} {after last : Pool maxLevels Entry}

/-- A node that is off the level needs no walk. -/
theorem Ground.Bypassed.of_off (holds : ground.Holds (start :: temporary) pool)
    (startMember : start ∈ headSlot :: ground.line) (near : ground.rank start ≤ bound)
    (there : pool.linkOf start level ≠ Link.nil) (off : pool.linkOf node level = Link.cleared) :
    ground.Bypassed temporary node level bound start pool start pool where
  holds := holds
  tidied := Tidied.refl _ _ _ _ _
  member := startMember
  helped short := ⟨holds, Tidied.refl _ _ _ _ _, startMember, Nat.lt_of_le_of_lt near short, there,
    off, fun _ leads => absurd (Pool.Linked.of_next? leads) (Pool.not_linked_of_cleared off)⟩
  idle _ := ⟨rfl, rfl⟩
  vouched linked := absurd off linked
  heeded _ := Heeded.refl _

/-- A walk up to a linked node leaves the node's own link as it is. -/
theorem Ground.Looked.linkOf_node
    (looked : ground.Looked temporary node level bound pool answer after)
    (short : bound < ground.rank node) : after.linkOf node level = pool.linkOf node level :=
  looked.tidied.behind node short level

/-- A node that was not found stays where it is, so the walk did not go as far. -/
theorem Ground.Looked.bypassed
    (looked : ground.Looked temporary node level bound pool answer after)
    (linked : pool.linkOf node level ≠ Link.cleared)
    (missed : ¬ (answer.2 = true ∧ after.linkOf node level ≠ Link.cleared)) :
    ground.Bypassed temporary node level bound start pool answer.1 after where
  holds := looked.holds
  tidied := looked.tidied.weaken (Nat.le_refl _) (Nat.le_max_left _ _)
  member := looked.member
  helped short :=
    absurd ⟨looked.found short, fun off => linked (looked.linkOf_node short ▸ off)⟩ missed
  idle off := absurd off linked
  vouched _ := looked.vouched
  heeded _ := looked.heeded

/-- A node that was found is off the level once the link that leads to it was swung past it. -/
theorem Ground.Looked.bypassed_of_helped
    (looked : ground.Looked temporary node level bound pool answer after)
    (linked : pool.linkOf node level ≠ Link.cleared)
    (startOff : ground.Dead start → after.linkOf start level = Link.cleared)
    (helped : ground.Helped temporary node level after answer.1 last)
    (heeded : (∀ hint, ¬ StaleHint last level node hint) → Heeded after last) :
    ground.Bypassed temporary node level bound start pool answer.1 last where
  holds := helped.holds
  tidied := (looked.tidied.weaken (Nat.le_refl _) (Nat.le_max_left _ _)).trans
    (helped.tidied.weaken (Nat.le_refl _) (Nat.le_max_right _ _))
  member := looked.member
  helped short := { helped with
    tidied := (looked.tidied.weaken (Nat.le_refl _) (Nat.le_of_lt short)).trans helped.tidied
    handed := fun other leads => helped.handed other
      ((Pool.next?_congr (looked.linkOf_node short)).trans leads) }
  idle off := absurd off linked
  vouched _ := looked.vouched.tidied helped.tidied
  heeded steered := by
    refine looked.heeded.trans (heeded fun hint stale => ?_)
    -- The hint would be the start, but the walk took that off the level if it is deleted.
    obtain ⟨back, reaches, hintDead⟩ := StaleHint.of_holds helped.holds stale
    have same := steered hint back reaches
    have unmarked := stale.unmarked
    rw [← same, helped.tidied.cleared (startOff (same ▸ hintDead)), Link.isMarked_cleared]
      at unmarked
    exact Bool.false_ne_true unmarked.symm

end Bypassed

namespace Helping

variable {limit : Nat}

/-- Taking a deleted node off a level, from any node that can be walked on from. -/
theorem bypassWithin_ends {node level bound : Nat} (member : node ∈ ground.line)
    (dead : ground.Dead node) (reached : level < ground.height node)
    (sound : helping.SoundBefore ground limit) (boundLt : bound < limit)
    (covers : ground.Covers bound (ground.key node))
    (reach : ground.rank node = bound + 1 ∨ ground.line.length ≤ bound) {start : Nat}
    (holds : ground.Holds (start :: temporary) pool)
    (startMember : start ∈ headSlot :: ground.line) (near : ground.rank start ≤ bound)
    (there : pool.linkOf start level ≠ Link.nil) :
    Ends (helping.bypass node start level) pool
      (ground.Bypassed temporary node level bound start pool) := by
  have nodeSpine := mem_spine_of_mem member
  have inner := List.mem_cons_of_mem headSlot member
  have nodeThere := holds.lanes.there_of_dead member dead reached
  unfold bypass
  refine Ends.bind (holds.bodyAt_ends nodeSpine ?_)
  rw [if_neg (Nat.not_le_of_lt reached)]
  refine Ends.bind (holds.linkAt_ends inner nodeThere ?_)
  by_cases off : pool.linkOf node level = Link.cleared
  · rw [if_pos off]
    exact Ends.pure (Ground.Bypassed.of_off holds startMember near there off)
  · rw [if_neg off]
    have linked : pool.Linked level node := by
      by_contra unlinked
      exact off ((Link.eq_nil_or_eq_cleared
        (Option.not_isSome_iff_eq_none.mp unlinked)).resolve_left nodeThere)
    refine Ends.andThen (locate_ends member sound boundLt covers holds startMember near there
      (reach.elim (fun close => Ground.Reach.node close linked) Ground.Reach.line))
      fun answer after found => ?_
    obtain ⟨looked, startOff⟩ := found
    refine Ends.bind (looked.holds.linkAt_ends inner (looked.tidied.linkOf_ne_nil nodeThere) ?_)
    by_cases taken : answer.2 = true ∧ after.linkOf node level ≠ Link.cleared
    · rw [if_pos (by simpa using taken)]
      have leads := looked.leads taken.1
      have named : after.next? level answer.1 = some node :=
        Pool.next?_of_linkOf leads (Pool.size_lt_slotLimit (looked.holds.inside nodeSpine))
      have adjacent := looked.holds.adjacent looked.member
        (holds.lanes.level_lt inner nodeThere) named
      have notTail : node ≠ tailSlot := fun isTail =>
        tail_not_mem ground.roster.distinct (isTail ▸ member)
      obtain ⟨target, nodeLeads⟩ := (adjacent.ends.resolve_left notTail).2.exists_next?
      refine (swingPast_ends member dead looked.holds looked.member adjacent.before leads
        nodeLeads).imp fun prev last swung => ?_
      obtain ⟨rfl, helped, heeded⟩ := swung
      exact looked.bypassed_of_helped off startOff helped heeded
    · rw [if_neg (by simpa using taken)]
      exact Ends.pure (looked.bypassed off taken)

/-- Setting out from in front of a deleted node. -/
theorem bypassFrom_ends {node level : Nat} (member : node ∈ ground.line) (dead : ground.Dead node)
    (reached : level < ground.height node)
    (sound : helping.SoundBefore ground (ground.rank node)) {start : Nat}
    (holds : ground.Holds (start :: temporary) pool)
    (startMember : start ∈ headSlot :: ground.line)
    (before : ground.rank start < ground.rank node)
    (there : pool.linkOf start level ≠ Link.nil) :
    Ends (helping.bypass node start level) pool
      (ground.Bypassed temporary node level (ground.rank node - 1) start pool) := by
  have positive : 0 < ground.rank node := rank_pos ground.roster.distinct member
  exact bypassWithin_ends member dead reached sound (by omega) (Ground.covers_of_mem member)
    (Or.inl (by omega)) holds startMember (by omega) there

/-- Taking a deleted node off a level, from any node in front of it that can be walked on from. -/
theorem bypass_ends {node level : Nat} (member : node ∈ ground.line) (dead : ground.Dead node)
    (reached : level < ground.height node)
    (sound : helping.SoundBefore ground (ground.rank node)) {start : Nat}
    (holds : ground.Holds (start :: temporary) pool)
    (startMember : start ∈ headSlot :: ground.line)
    (before : ground.rank start < ground.rank node)
    (there : pool.linkOf start level ≠ Link.nil) :
    Ends (helping.bypass node start level) pool (ground.Helped temporary node level pool) :=
  (bypassFrom_ends member dead reached sound holds startMember before there).imp
    fun _ _ bypassed => bypassed.helped (by omega)

end Helping

/-! ### Marking the links of a node -/

/-- Links of a node were marked, from a level up. -/
structure Ground.Marked (ground : Ground) (temporary : List Nat) (node bottom : Nat)
    (pool after : Pool maxLevels Entry) : Prop where
  holds : ground.Holds temporary after
  tidied : ground.Tidies bottom (ground.rank node) pool after
  next : ∀ slot height, after.next? height slot = pool.next? height slot
  others : ∀ slot, slot ≠ node → ∀ height, after.linkOf slot height = pool.linkOf slot height
  heeded : Heeded pool after

/-- Marks on a deleted node change no target. -/
theorem markLinks_ends {node bottom : Nat} (member : node ∈ ground.line) (dead : ground.Dead node)
    (count : Nat) {level : Nat} (above : bottom ≤ level)
    (fits : level + count ≤ ground.height node) {pool : Pool maxLevels Entry}
    (holds : ground.Holds temporary pool) :
    Ends (markLinks node level count) pool fun _ after =>
      ground.Marked temporary node bottom pool after := by
  induction count generalizing level pool with
  | zero =>
    exact Ends.pure ⟨holds, Tidied.refl _ _ _ _ _, fun _ _ => rfl, fun _ _ _ => rfl,
      Heeded.refl _⟩
  | succ count inductionHypothesis =>
    have nodeInside := holds.inside (mem_spine_of_mem member)
    have reached : level < ground.height node := by omega
    have levelLt : level < maxLevels := Nat.lt_of_lt_of_le reached
      (Nat.le_trans (ground.roster.heightLe node member) ground.roster.heights.2)
    have there := holds.lanes.there_of_dead member dead reached
    have fitsHere := holds.fits (List.mem_cons_of_mem _ member) there
    unfold markLinks
    cases marked : (pool.linkOf node level).isMarked with
    | true =>
      refine Ends.bind (markLink_ends_of_isMarked nodeInside fitsHere levelLt marked ?_)
      exact Ends.andThen (inductionHypothesis (by omega) (by omega) holds)
        fun _ after marks => Ends.pure marks
    | false =>
      refine Ends.bind (markLink_ends nodeInside fitsHere levelLt marked ?_)
      have tidied : ground.Tidies bottom (ground.rank node) pool
          (pool.withLink node level ((pool.linkOf node level).setMark true)) :=
        Tidied.mark nodeInside levelLt member dead above (Nat.le_refl _) there
      have holdsMarked : ground.Holds temporary
          (pool.withLink node level ((pool.linkOf node level).setMark true)) := by
        refine holds.of_tidied tidied (rank_le_length ground.roster.distinct
          (List.mem_cons_of_mem _ member)) ?_ ?_
        · exact holds.lanes.mark nodeInside levelLt member dead there
        · exact holds.held.congr (Pool.size_withLink _ _ _) (Pool.counterOf_withLink nodeInside)
      refine Ends.andThen (inductionHypothesis (by omega) (by omega) holdsMarked)
        fun _ after marks => Ends.pure ⟨marks.holds, tidied.trans marks.tidied,
          fun slot height => ?_, fun slot apart height => ?_,
          (Heeded.mark nodeInside levelLt there tidied).trans marks.heeded⟩
      · rw [marks.next]
        exact Pool.next?_marked nodeInside levelLt height slot
      · rw [marks.others slot apart, Pool.linkOf_withLink nodeInside levelLt,
          if_neg fun same => apart same.1]

/-! ### One layer and all layers -/

/-- A predecessor to start from is held, and its link at the level can be followed. It is the one
that the node's reference back names, as it is, if that reaches the level. -/
structure Ground.Preceded (ground : Ground) (temporary : List Nat) (node level : Nat)
    (pool : Pool maxLevels Entry) (prev : Nat) (after : Pool maxLevels Entry) : Prop where
  holds : ground.Holds (prev :: temporary) after
  tidied : ground.Tidies level (ground.rank node - 1) pool after
  member : prev ∈ headSlot :: ground.line
  before : ground.rank prev < ground.rank node
  there : after.linkOf prev level ≠ Link.nil
  heeded : Heeded pool after
  named : ∀ hint, ground.start.back? node = some hint → level < ground.validHeight hint →
    prev = hint ∧ ∀ slot height, after.linkOf slot height = pool.linkOf slot height
  vouched : ground.start.back? node = some prev ∧ level < ground.validHeight prev ∨
    ground.Vouched level prev after

/-- A reference back names a slot in front of its node. -/
theorem Ground.before_of_back {node hint : Nat} (member : node ∈ ground.line)
    (back : ground.start.back? node = some hint) :
    hint ∈ headSlot :: ground.line ∧ ground.rank hint < ground.rank node := by
  rcases ground.roster.back node member hint back with rfl | ⟨inLine, smaller⟩
  · refine ⟨List.mem_cons_self, ?_⟩
    rw [ground.rank_head]
    exact rank_pos ground.roster.distinct member
  · exact ⟨List.mem_cons_of_mem _ inLine, ground.rank_lt_of_key_lt inLine member smaller⟩

namespace Helping

/-- A predecessor that is found from the head can be walked on from. -/
theorem predecessorFromHead_ends {node level : Nat} (member : node ∈ ground.line)
    (reached : level < ground.height node)
    (sound : helping.SoundBefore ground (ground.rank node))
    (holds : ground.Holds temporary pool)
    (unnamed : ∀ hint, ground.start.back? node = some hint →
      ¬ level < ground.validHeight hint) :
    Ends (helping.predecessorFromHead ground.maxHeight node level) pool
      (ground.Preceded temporary node level pool) := by
  have positive : 0 < ground.rank node := rank_pos ground.roster.distinct member
  have low : level < ground.maxHeight :=
    Nat.lt_of_lt_of_le reached (ground.roster.heightLe node member)
  have headBefore : ground.rank headSlot ≤ ground.rank node - 1 := by
    rw [ground.rank_head]
    exact Nat.zero_le _
  unfold predecessorFromHead
  refine Ends.bind (holds.bodyAt_ends (mem_spine_of_mem member) ?_)
  refine Ends.bind (holds.retain_ends (head_mem_spine _) fun held => ?_)
  refine (descend_ends sound (by omega) (Ground.covers_of_mem member) (ground.maxHeight - level)
    held List.mem_cons_self (by omega)
    (fun height (low : height < ground.maxHeight) => head_there held low)
    headBefore fun _ => Ground.Vouched.of_alive ground.not_dead_head _).imp
      fun prev after descended => ?_
  have le := (Ground.covers_of_mem member).rank_le headBefore descended.within
  exact {
    holds := descended.holds
    tidied := (Tidied.of_recount _ _ _ _ _ _ _).trans descended.tidied
    member := descended.member
    before := by omega
    there := descended.there level (by omega) (Nat.le_refl _)
    heeded := (Heeded.of_recount _ _ _).trans descended.heeded
    named := fun hint back reaches => absurd reaches (unnamed hint back)
    vouched := Or.inr descended.vouched }

/-- A predecessor to start from stands in front of the node and can be walked on from. -/
theorem predecessor_ends {node level : Nat} (member : node ∈ ground.line)
    (reached : level < ground.height node)
    (sound : helping.SoundBefore ground (ground.rank node))
    (holds : ground.Holds temporary pool) :
    Ends (helping.predecessor ground.maxHeight node level) pool
      (ground.Preceded temporary node level pool) := by
  have fromHead := predecessorFromHead_ends member reached sound holds
  unfold predecessor
  refine Ends.bind (Pool.nodeAt_ends (holds.inside (mem_spine_of_mem member)) ?_)
  have sameBack : (pool.nodeOf node).back? = ground.start.back? node := by
    show (pool.backOf node).bind Link.slot? = _
    rw [holds.tidied.back node]
    rfl
  rw [sameBack]
  cases back : ground.start.back? node with
  | none => exact fromHead fun hint named => absurd (back.symm.trans named) (by simp)
  | some hint =>
    have only : ∀ other, ground.start.back? node = some other → other = hint :=
      fun other named => Option.some.inj (named.symm.trans back)
    obtain ⟨hintMember, hintBefore⟩ := ground.before_of_back member back
    have hintSpine := mem_spine_of_mem_cons hintMember
    refine Ends.bind (holds.bodyAt_ends hintSpine ?_)
    by_cases valid : level < ground.validHeight hint
    · rw [if_pos valid]
      refine Ends.bind (holds.retain_ends hintSpine fun held => Ends.pure ?_)
      exact ⟨held, Tidied.of_recount _ _ _ _ _ _ _, hintMember, hintBefore,
        held.lanes.valid hint hintMember level valid, Heeded.of_recount _ _ _,
        fun other named _ => ⟨(only other named).symm, Pool.linkOf_recount _ _⟩,
        Or.inl ⟨back, valid⟩⟩
    · rw [if_neg valid]
      exact fromHead fun other named => (only other named).symm ▸ valid

/-- Finishing the deletion of a node at a level. -/
theorem finishAt_ends {node level : Nat} (member : node ∈ ground.line) (dead : ground.Dead node)
    (reached : level < ground.height node)
    (sound : helping.SoundBefore ground (ground.rank node))
    (holds : ground.Holds (node :: temporary) pool) :
    Ends (helping.finishAt ground.maxHeight node level) pool
      (ground.Finished temporary node level pool) := by
  have nodeSpine := mem_spine_of_mem member
  have height : ground.height node = (ground.start.bodyOf node).height := rfl
  unfold finishAt
  refine Ends.bind (holds.bodyAt_ends nodeSpine ?_)
  rw [if_neg (Nat.not_le_of_lt reached)]
  refine Ends.andThen (markLinks_ends member dead _ (Nat.le_refl level) (by omega) holds)
    fun _ marked marks => ?_
  refine Ends.andThen (predecessor_ends member reached sound marks.holds)
    fun start found started => ?_
  have before := started.before
  refine Ends.andThen (bypassFrom_ends member dead reached sound started.holds started.member
    before started.there) fun prev last bypassed => ?_
  have helped := bypassed.helped (by omega)
  suffices finished : ground.Finished (node :: temporary) node level pool prev last from
    Ends.bind (helped.holds.swap.release_ends nodeSpine fun released =>
      Ends.pure (finished.released released))
  refine { helped with
    tidied := (marks.tidied.trans (started.tidied.weaken (Nat.le_refl _) (Nat.sub_le _ _))).trans
      helped.tidied
    handed := ?handed
    heeded := (marks.heeded.trans started.heeded).trans
      (bypassed.heeded fun hint back reaches => (started.named hint back reaches).1)
    vouched := ?vouched
    astray := ?astray }
  case handed =>
    intro next leads
    refine helped.handed next ?_
    rw [Pool.next?_congr (Ground.linkOf_of_tidies member started.tidied level)]
    exact (marks.next node level).trans leads
  case vouched =>
    by_cases cleared : found.linkOf node level = Link.cleared
    · obtain ⟨rfl, rfl⟩ := bypassed.idle cleared
      refine started.vouched.elim (fun named prevDead unmarked => ⟨node, member, ?_⟩) id
      exact StaleHint.of_ground helped.holds cleared named.1 named.2 prevDead unmarked
    · exact bypassed.vouched cleared
  case astray =>
    intro hint stale
    obtain ⟨back, reaches, -⟩ := StaleHint.of_holds holds stale
    obtain ⟨named, links⟩ := started.named hint back reaches
    obtain ⟨same, rfl⟩ := bypassed.idle (started.tidied.cleared (marks.tidied.cleared stale.off))
    have apart : hint ≠ node := fun isNode => absurd (isNode ▸ named ▸ before) (Nat.lt_irrefl _)
    refine ⟨same.trans named, ?_⟩
    rw [same.trans named, links, marks.others hint apart]
    exact stale.unmarked

end Helping

/-- A helper of some layers is sound for ranks below their number. -/
theorem helpLayers_sound {bound : Nat} (bounded : ground.line.length + 2 ≤ bound) (layers : Nat) :
    Helping.SoundBefore ⟨helpLayers ground.maxHeight bound layers, bound⟩ ground layers := by
  induction layers with
  | zero => exact ⟨bounded, fun _ _ near => absurd near (Nat.not_lt_zero _)⟩
  | succ layers inductionHypothesis =>
    refine ⟨bounded, fun node member near level reached temporary pool holds dead => ?_⟩
    refine Helping.finishAt_ends member dead reached ⟨bounded, ?_⟩ holds
    intro other otherMember otherNear
    exact inductionHypothesis.help other otherMember (by omega)

/-- The walks of a queue are sound on all of its ground. -/
theorem helpingFor_sound (ground : Ground) :
    (helpingFor ground.maxHeight ground.start.size).SoundBefore ground
      (ground.line.length + 2) := by
  have short := length_lt_of_forall_lt ground.roster.distinct ground.roster.inside
  have bounded : ground.line.length + 2 ≤ walkBound ground.start.size := by
    have square := Nat.le_mul_self (ground.start.size + 1)
    unfold walkBound
    omega
  have sound : (helpingFor ground.maxHeight ground.start.size).SoundBefore ground
      (walkBound ground.start.size) := helpLayers_sound bounded _
  exact ⟨bounded, fun node member near => sound.help node member (by omega)⟩

end PriorityQueue

end PooledContainers
