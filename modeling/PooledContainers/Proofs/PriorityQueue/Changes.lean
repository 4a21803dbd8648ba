/-
Changes of a queue's nodes that walks do not make, and what they leave in order: another body or
reference back that keeps what the roster and the lanes ask of them, nodes that leave the line
because nobody holds them any more, a fresh node that comes into the line, and a node that is linked
at a level between two neighbours.
-/

import PooledContainers.PriorityQueue.Operations
import PooledContainers.Proofs.Pool.Counting
import PooledContainers.Proofs.PriorityQueue.Ground

namespace PooledContainers

namespace PriorityQueue

open Line Operation Pool

/-! ### Data words -/

/-- A data word that was just read is still there to be replaced. -/
theorem replaceDatum_ends {pool : Pool maxLevels Entry} {slot : Nat} {replacement : Datum}
    {condition : Unit → Pool maxLevels Entry → Prop} (inside : slot < pool.size)
    (holds : condition () (pool.withBody slot { pool.bodyOf slot with datum := replacement })) :
    Ends (replaceDatum slot (pool.bodyOf slot).datum replacement) pool condition := by
  unfold replaceDatum
  refine Ends.bind (bodyAt_ends inside ?_)
  rw [if_pos rfl]
  exact changeBody_ends inside holds

/-! ### Bodies and references back -/

section Congr

variable {maxHeight : Nat} {line : List Nat} {start other pool after : Pool maxLevels Entry}

/-- Of the bodies, keys, heights and valid heights matter, and which nodes are deleted. -/
theorem Muster.of_bodies (muster : Muster maxHeight line pool) (size : after.size = pool.size)
    (key : ∀ slot ∈ spine line, keyOf after slot = keyOf pool slot)
    (height : ∀ slot ∈ spine line, (after.bodyOf slot).height = (pool.bodyOf slot).height)
    (deleted : ∀ slot ∈ line, Deleted pool slot → Deleted after slot)
    (headAlive : ¬ Deleted after headSlot) (tailAlive : ¬ Deleted after tailSlot)
    (headValid : (after.bodyOf headSlot).validHeight = (pool.bodyOf headSlot).validHeight)
    (validLe : ∀ slot ∈ line, (after.bodyOf slot).validHeight ≤ (after.bodyOf slot).height)
    (validDeleted : ∀ slot ∈ line, Deleted after slot →
      (after.bodyOf slot).validHeight = (after.bodyOf slot).height) :
    Muster maxHeight line after := by
  have within : ∀ slot ∈ line, slot ∈ spine line := fun slot member => mem_spine_of_mem member
  refine ⟨muster.distinct, size ▸ muster.inside, muster.heights, ?_, ?_, headValid.trans
    muster.headValid, headAlive, tailAlive, ?_, ?_, validLe, validDeleted⟩
  · intro front frontMember behind behindMember before
    rw [key front (within front frontMember), key behind (within behind behindMember)]
    exact (muster.sorted front frontMember behind behindMember before).imp_right
      fun ⟨same, dead⟩ => ⟨same, deleted behind behindMember dead⟩
  · rw [height headSlot (head_mem_spine line)]
    exact muster.headHeight
  · intro slot member
    rw [height slot (within slot member)]
    exact muster.heightPos slot member
  · intro slot member
    rw [height slot (within slot member)]
    exact muster.heightLe slot member

/-- References back may stay as they are, since keys do and deleted nodes stay deleted. -/
theorem Roster.of_muster (roster : Roster maxHeight line pool)
    (muster : Muster maxHeight line after) (size : after.size = pool.size)
    (key : ∀ slot ∈ spine line, keyOf after slot = keyOf pool slot)
    (deleted : ∀ slot ∈ line, Deleted pool slot → Deleted after slot)
    (back : ∀ slot, after.backOf slot = pool.backOf slot) : Roster maxHeight line after := by
  have back? : ∀ slot, after.back? slot = pool.back? slot := fun slot =>
    Pool.back?_congr (back slot)
  refine ⟨muster, ?_, ?_, ?_⟩
  · intro slot member hint names
    rw [back?] at names
    rw [key slot (mem_spine_of_mem member)]
    refine (roster.back slot member hint names).imp_right fun ⟨inLine, smaller⟩ => ⟨inLine, ?_⟩
    rw [key hint (mem_spine_of_mem inLine)]
    exact smaller
  · intro slot member alive
    rw [back?]
    exact roster.backAlive slot member fun dead => alive (deleted slot member dead)
  · simp only [size, back]
    exact roster.backThere

theorem deleted_congr {slot : Nat} (body : after.bodyOf slot = pool.bodyOf slot) :
    Deleted after slot ↔ Deleted pool slot := by
  unfold Deleted
  rw [body]

theorem keyOf_congr {slot : Nat} (body : after.bodyOf slot = pool.bodyOf slot) :
    keyOf after slot = keyOf pool slot := by
  unfold keyOf
  rw [body]

theorem Muster.congr (muster : Muster maxHeight line pool) (size : after.size = pool.size)
    (body : ∀ slot ∈ spine line, after.bodyOf slot = pool.bodyOf slot) :
    Muster maxHeight line after := by
  have deleted : ∀ slot ∈ spine line, (Deleted after slot ↔ Deleted pool slot) :=
    fun slot member => deleted_congr (body slot member)
  refine muster.of_bodies size (fun slot member => keyOf_congr (body slot member))
    (fun slot member => by rw [body slot member])
    (fun slot member => (deleted slot (mem_spine_of_mem member)).mpr)
    ((deleted _ (head_mem_spine line)).not.mpr muster.headAlive)
    ((deleted _ (tail_mem_spine line)).not.mpr muster.tailAlive)
    (by rw [body _ (head_mem_spine line)]) (fun slot member => ?_) fun slot member dead => ?_
  · rw [body slot (mem_spine_of_mem member)]
    exact muster.validLe slot member
  · rw [body slot (mem_spine_of_mem member)]
    exact muster.validDeleted slot member ((deleted slot (mem_spine_of_mem member)).mp dead)

theorem Roster.congr (roster : Roster maxHeight line pool) (size : after.size = pool.size)
    (body : ∀ slot ∈ spine line, after.bodyOf slot = pool.bodyOf slot)
    (back : ∀ slot, after.backOf slot = pool.backOf slot) : Roster maxHeight line after :=
  roster.of_muster (roster.toMuster.congr size body) size
    (fun slot member => keyOf_congr (body slot member))
    (fun slot member => (deleted_congr (body slot (mem_spine_of_mem member))).mpr) back

/-- Lanes ask of the bodies only the heights, which levels are valid and which nodes are deleted. -/
theorem Lanes.of_bodies (lanes : Lanes maxHeight line start pool)
    (links : ∀ slot ∈ spine line, ∀ level, after.linkOf slot level = pool.linkOf slot level)
    (deleted : ∀ slot ∈ line, Deleted start slot → Deleted other slot)
    (height : ∀ slot ∈ headSlot :: line,
      (other.bodyOf slot).height = (start.bodyOf slot).height)
    (valid : ∀ slot ∈ headSlot :: line, ∀ level < (other.bodyOf slot).validHeight,
      pool.linkOf slot level ≠ Link.nil) :
    Lanes maxHeight line other after := by
  have within : ∀ slot ∈ headSlot :: line, slot ∈ spine line :=
    fun slot member => mem_spine_of_mem_cons member
  refine ⟨fun level low => (lanes.threaded level low).congr fun slot member => ?_, ?_, ?_, ?_, ?_,
    ?_, ?_⟩
  · exact Pool.next?_congr (links slot (within slot member) level)
  · intro level
    rw [links headSlot (head_mem_spine line)]
    exact lanes.headUnmarked level
  · intro level
    rw [links tailSlot (tail_mem_spine line)]
    exact lanes.tailNil level
  · intro slot member level marked
    rw [links slot (mem_spine_of_mem member)] at marked
    exact deleted slot member (lanes.marked slot member level marked)
  · intro slot member level low
    rw [links slot (within slot member)]
    exact valid slot member level low
  · intro slot member level below le there
    rw [links slot (within slot member)] at there ⊢
    exact lanes.down slot member level below le there
  · intro slot member level there
    rw [links slot (within slot member)] at there
    rw [height slot member]
    exact lanes.top slot member level there

theorem Lanes.congr (lanes : Lanes maxHeight line start pool)
    (links : ∀ slot ∈ spine line, ∀ level, after.linkOf slot level = pool.linkOf slot level)
    (deleted : ∀ slot ∈ line, Deleted start slot → Deleted other slot)
    (height : ∀ slot ∈ headSlot :: line,
      (other.bodyOf slot).height = (start.bodyOf slot).height)
    (valid : ∀ slot ∈ headSlot :: line,
      (other.bodyOf slot).validHeight = (start.bodyOf slot).validHeight) :
    Lanes maxHeight line other after :=
  lanes.of_bodies links deleted height fun slot member level low =>
    lanes.valid slot member level (valid slot member ▸ low)

end Congr

/-! ### Another body or reference back -/

section WithBody

variable {maxHeight : Nat} {line : List Nat} {pool : Pool maxLevels Entry} {slot : Nat}
  {body : Entry}

theorem keyOf_withBody (inside : slot < pool.size) (sameKey : body.key = (pool.bodyOf slot).key)
    (other : Nat) : keyOf (pool.withBody slot body) other = keyOf pool other := by
  unfold keyOf
  rw [bodyOf_withBody inside]
  split
  next same => rw [same, sameKey]
  next => rfl

theorem height_withBody (inside : slot < pool.size)
    (sameHeight : body.height = (pool.bodyOf slot).height) (other : Nat) :
    ((pool.withBody slot body).bodyOf other).height = (pool.bodyOf other).height := by
  rw [bodyOf_withBody inside]
  split
  next same => rw [same, sameHeight]
  next => rfl

theorem Deleted.withBody {other : Nat} (dead : Deleted pool other) (inside : slot < pool.size)
    (keeps : Deleted pool slot → body.datum.isDeleted = true) :
    Deleted (pool.withBody slot body) other := by
  unfold Deleted
  rw [bodyOf_withBody inside]
  split
  next same => exact keeps (same ▸ dead)
  next => exact dead

/-- A node of the line may get a body with its key and height, a valid height that is in order, and
no new life. -/
theorem Roster.withBody (roster : Roster maxHeight line pool) (member : slot ∈ line)
    (sameKey : body.key = (pool.bodyOf slot).key)
    (sameHeight : body.height = (pool.bodyOf slot).height)
    (keeps : Deleted pool slot → body.datum.isDeleted = true)
    (validLe : body.validHeight ≤ body.height)
    (validDeleted : body.datum.isDeleted = true → body.validHeight = body.height) :
    Roster maxHeight line (pool.withBody slot body) := by
  have inside := roster.inside slot (mem_spine_of_mem member)
  have distinct := roster.distinct
  have bodyOf : ∀ other, (pool.withBody slot body).bodyOf other =
      if other = slot then body else pool.bodyOf other := bodyOf_withBody inside
  have others : ∀ other, other ∉ line → (pool.withBody slot body).bodyOf other =
      pool.bodyOf other := by
    intro other absent
    rw [bodyOf, if_neg fun same : other = slot => absent (same ▸ member)]
  have key := keyOf_withBody inside sameKey
  have deleted : ∀ other ∈ line, Deleted pool other → Deleted (pool.withBody slot body) other :=
    fun _ _ dead => dead.withBody inside keeps
  refine roster.of_muster (roster.toMuster.of_bodies (size_withBody slot body)
    (fun other _ => key other) (fun other _ => height_withBody inside sameHeight other) deleted
    ((deleted_congr (others _ (head_not_mem distinct))).not.mpr roster.headAlive)
    ((deleted_congr (others _ (tail_not_mem distinct))).not.mpr roster.tailAlive)
    (by rw [others _ (head_not_mem distinct)]) ?validLe ?validDeleted)
    (size_withBody slot body) (fun other _ => key other) deleted (backOf_withBody inside)
  case validLe =>
    intro other otherMember
    rw [bodyOf]
    split
    next => exact validLe
    next => exact roster.validLe other otherMember
  case validDeleted =>
    intro other otherMember
    unfold Deleted
    rw [bodyOf]
    split
    next => exact validDeleted
    next => exact roster.validDeleted other otherMember

/-- The lanes allow for such a body if the levels that it says are valid have been linked. -/
theorem Lanes.withBody (lanes : Lanes maxHeight line pool pool) (inside : slot < pool.size)
    (sameHeight : body.height = (pool.bodyOf slot).height)
    (keeps : Deleted pool slot → body.datum.isDeleted = true)
    (there : ∀ level < body.validHeight, pool.linkOf slot level ≠ Link.nil) :
    Lanes maxHeight line (pool.withBody slot body) (pool.withBody slot body) := by
  refine lanes.of_bodies (fun other _ => linkOf_withBody inside other)
    (fun _ _ dead => dead.withBody inside keeps)
    (fun other _ => height_withBody inside sameHeight other) fun other member level low => ?_
  rw [bodyOf_withBody inside] at low
  split at low
  next same => exact same ▸ there level low
  next => exact lanes.valid other member level low

end WithBody

/-- A committed node may get a reference back to the head or to a node with a smaller key. -/
theorem Roster.withBack {maxHeight : Nat} {line : List Nat} {pool : Pool maxLevels Entry}
    {slot target : Nat} (roster : Roster maxHeight line pool) (member : slot ∈ line)
    (dead : Deleted pool slot)
    (smaller : target = headSlot ∨ target ∈ line ∧ keyOf pool target < keyOf pool slot) :
    Roster maxHeight line (pool.withBack slot (Link.ofSlot target)) := by
  have inside := roster.inside slot (mem_spine_of_mem member)
  have targetInside : target < pool.size := by
    refine roster.inside target ?_
    rcases smaller with rfl | ⟨inLine, -⟩
    · exact head_mem_spine line
    · exact mem_spine_of_mem inLine
  have body : ∀ other, (pool.withBack slot (Link.ofSlot target)).bodyOf other =
      pool.bodyOf other := bodyOf_withBack inside
  have there := roster.backThere slot inside
  have back? := back?_withBack inside targetInside there
  refine ⟨roster.toMuster.congr (size_withBack slot _) fun other _ => body other, ?back,
    ?backAlive, ?backThere⟩
  case back =>
    intro other otherMember hint names
    rw [keyOf_congr (body hint), keyOf_congr (body other)]
    rw [back?] at names
    split at names
    next same =>
      rw [same, ← Option.some.inj names]
      exact smaller
    next => exact roster.back other otherMember hint names
  case backAlive =>
    intro other otherMember alive
    rw [deleted_congr (body other)] at alive
    rw [back?, if_neg]
    · exact roster.backAlive other otherMember alive
    · rintro rfl
      exact alive dead
  case backThere =>
    intro other otherInside
    rw [size_withBack] at otherInside
    rw [backOf_withBack inside]
    split
    next =>
      rw [Option.isSome_map]
      exact there
    next => exact roster.backThere other otherInside

/-! ### Nodes that leave the line -/

section Sublist

variable {maxHeight : Nat} {line rest : List Nat} {start pool : Pool maxLevels Entry}

theorem Muster.sublist (muster : Muster maxHeight line pool) (part : rest.Sublist line) :
    Muster maxHeight rest pool :=
  { muster with
    distinct := muster.distinct.sublist (spine_sublist part)
    inside := fun slot member => muster.inside slot ((spine_sublist part).subset member)
    sorted := fun front frontMember behind behindMember before =>
      muster.sorted front (part.subset frontMember) behind (part.subset behindMember)
        ((rank_lt_rank_iff part muster.distinct (mem_spine_of_mem frontMember)
          (mem_spine_of_mem behindMember)).mp before)
    heightPos := fun slot member => muster.heightPos slot (part.subset member)
    heightLe := fun slot member => muster.heightLe slot (part.subset member)
    validLe := fun slot member => muster.validLe slot (part.subset member)
    validDeleted := fun slot member => muster.validDeleted slot (part.subset member) }

/-- Nodes that are linked at no level may leave. -/
theorem Lanes.sublist (lanes : Lanes maxHeight line start pool) (distinct : (spine line).Nodup)
    (part : rest.Sublist line)
    (unlinked : ∀ slot ∈ line, slot ∉ rest → ∀ level, ¬ pool.Linked level slot) :
    Lanes maxHeight rest start pool := by
  have within : ∀ slot ∈ headSlot :: rest, slot ∈ headSlot :: line :=
    fun slot member => (part.cons_cons headSlot).subset member
  exact
  { lanes with
    threaded := fun level low => (lanes.threaded level low).of_sublist distinct part
      fun slot member absent => unlinked slot member absent level
    marked := fun slot member => lanes.marked slot (part.subset member)
    valid := fun slot member => lanes.valid slot (within slot member)
    down := fun slot member => lanes.down slot (within slot member)
    top := fun slot member => lanes.top slot (within slot member) }

end Sublist

section Released

variable {maxHeight : Nat} {line free freed : List Nat} {outside : Nat → Nat}
  {pool after : Pool maxLevels Entry}

/-- The roster without the nodes that were freed. No reference back names one of them. -/
theorem Roster.released (roster : Roster maxHeight line pool)
    (released : Pool.Released free outside freed pool after) :
    Roster maxHeight (without line freed) after := by
  have part := without_sublist line freed
  have back? : ∀ slot ∈ without line freed, after.back? slot = pool.back? slot :=
    fun slot member => released.back?_of_not_mem (mem_without.mp member).2
  refine ⟨(roster.toMuster.sublist part).congr released.size fun slot _ => released.body slot,
    ?back, ?backAlive, ?backThere⟩
  case back =>
    intro slot member hint names
    have inside : slot < after.size := by
      rw [released.size]
      exact roster.inside slot (mem_spine_of_mem (part.subset member))
    have hintKept := released.accounted.not_free_of_back inside names
    rw [back? slot member] at names
    unfold keyOf
    rw [released.body, released.body]
    refine (roster.back slot (part.subset member) hint names).imp_right
      fun ⟨inLine, smaller⟩ => ⟨mem_without.mpr ⟨inLine, fun inFreed => ?_⟩, smaller⟩
    exact hintKept (List.mem_append_left _ inFreed)
  case backAlive =>
    intro slot member alive
    unfold Deleted at alive
    rw [released.body] at alive
    rw [back? slot member]
    exact roster.backAlive slot (part.subset member) alive
  case backThere =>
    intro slot inside
    rw [released.backThere]
    exact roster.backThere slot (released.size ▸ inside)

/-- The lanes without the nodes that were freed, if none of those was linked. -/
theorem Lanes.released (lanes : Lanes maxHeight line pool pool) (distinct : (spine line).Nodup)
    (released : Pool.Released free outside freed pool after) (headStays : headSlot ∉ freed)
    (tailStays : tailSlot ∉ freed)
    (unlinked : ∀ slot ∈ line, slot ∈ freed → ∀ level, ¬ pool.Linked level slot) :
    Lanes maxHeight (without line freed) after after := by
  have stays : ∀ slot ∈ spine (without line freed), slot ∉ freed := by
    intro slot member
    rcases mem_spine.mp member with rfl | inLine | rfl
    · exact headStays
    · exact (mem_without.mp inLine).2
    · exact tailStays
  refine (lanes.sublist distinct (without_sublist line freed) fun slot member absent =>
    unlinked slot member ?_).congr (fun slot member => released.links slot (stays slot member))
    (fun slot _ => (deleted_congr (released.body slot)).mpr)
    (fun slot _ => by rw [released.body]) fun slot _ => by rw [released.body]
  by_contra kept
  exact absent (mem_without.mpr ⟨member, kept⟩)

end Released

/-! ### A node that comes into the line -/

section Entered

variable {maxHeight : Nat} {line : List Nat} {pool : Pool maxLevels Entry} {node : Nat}

/-- The line with a node in front of all nodes whose keys are not smaller. -/
def entered (line : List Nat) (pool : Pool maxLevels Entry) (node : Nat) : List Nat :=
  enter line (fun slot => decide (keyOf pool slot < keyOf pool node)) node

theorem mem_entered {slot : Nat} : slot ∈ entered line pool node ↔ slot = node ∨ slot ∈ line :=
  mem_enter

theorem entered_sublist : line.Sublist (entered line pool node) := enter_sublist

theorem Muster.rank_entered_lt_iff (muster : Muster maxHeight line pool) (new : node ∉ spine line)
    {slot : Nat} (member : slot ∈ line) :
    rank (entered line pool node) slot < rank (entered line pool node) node ↔
      keyOf pool slot < keyOf pool node := by
  refine (rank_enter_lt_iff muster.distinct new ?_ member).trans (by rw [decide_eq_true_eq])
  intro front frontMember behind behindMember before smaller
  rw [decide_eq_true_eq] at smaller ⊢
  rcases muster.sorted front frontMember behind behindMember before with less | ⟨same, -⟩
  · exact UInt64.lt_trans less smaller
  · rw [same]
    exact smaller

/-- A live node may come into the line if no other live node has its key. -/
theorem Roster.entered (roster : Roster maxHeight line pool) (new : node ∉ spine line)
    (inside : node < pool.size) (alive : ¬ Deleted pool node)
    (heightPos : 1 ≤ (pool.bodyOf node).height) (heightLe : (pool.bodyOf node).height ≤ maxHeight)
    (validLe : (pool.bodyOf node).validHeight ≤ (pool.bodyOf node).height)
    (nowhere : pool.back? node = none)
    (alone : ∀ slot ∈ line, keyOf pool slot = keyOf pool node → Deleted pool slot) :
    Roster maxHeight (entered line pool node) pool := by
  have distinct : (spine (PriorityQueue.entered line pool node)).Nodup :=
    nodup_enter roster.distinct new
  have either {property : Nat → Prop} (atNode : property node)
      (others : ∀ slot ∈ line, property slot) :
      ∀ slot ∈ PriorityQueue.entered line pool node, property slot := by
    intro slot member
    rcases mem_entered.mp member with rfl | inLine
    · exact atNode
    · exact others slot inLine
  refine ⟨⟨distinct, ?inside, roster.heights, ?sorted, roster.headHeight, roster.headValid,
    roster.headAlive, roster.tailAlive, either heightPos roster.heightPos,
    either heightLe roster.heightLe, either validLe roster.validLe,
    either (fun dead => absurd dead alive) roster.validDeleted⟩, ?back,
    either (fun _ => nowhere) roster.backAlive, roster.backThere⟩
  case inside =>
    intro slot member
    rcases mem_spine.mp member with rfl | inLine | rfl
    · exact roster.inside headSlot (head_mem_spine line)
    · exact either inside (fun other otherMember =>
        roster.inside other (mem_spine_of_mem otherMember)) slot inLine
    · exact roster.inside tailSlot (tail_mem_spine line)
  case sorted =>
    intro front frontMember behind behindMember before
    rcases mem_entered.mp frontMember with rfl | frontInLine
    · rcases mem_entered.mp behindMember with rfl | behindInLine
      · exact absurd before (Nat.lt_irrefl _)
      · have notSmaller := (roster.rank_entered_lt_iff new behindInLine).not.mp
          (Nat.not_lt_of_le (Nat.le_of_lt before))
        rcases UInt64.lt_or_eq_of_le (UInt64.not_lt.mp notSmaller) with less | same
        · exact Or.inl less
        · exact Or.inr ⟨same, alone behind behindInLine same.symm⟩
    · rcases mem_entered.mp behindMember with rfl | behindInLine
      · exact Or.inl ((roster.rank_entered_lt_iff new frontInLine).mp before)
      · exact roster.sorted front frontInLine behind behindInLine
          ((rank_lt_rank_iff entered_sublist distinct (mem_spine_of_mem frontInLine)
            (mem_spine_of_mem behindInLine)).mpr before)
  case back =>
    refine either (fun hint names => ?_) fun slot member hint names => ?_
    · rw [nowhere] at names
      exact absurd names (by simp)
    · exact (roster.back slot member hint names).imp_right fun ⟨inLine, smaller⟩ =>
        ⟨mem_entered.mpr (Or.inr inLine), smaller⟩

/-- The lanes do not change with a node that is linked nowhere. -/
theorem Lanes.entered (lanes : Lanes maxHeight line pool pool) (distinct : (spine line).Nodup)
    (new : node ∉ spine line) (nil : ∀ level, pool.linkOf node level = Link.nil)
    (valid : (pool.bodyOf node).validHeight = 0) :
    Lanes maxHeight (entered line pool node) pool pool := by
  have inLine : ∀ slot ∈ headSlot :: PriorityQueue.entered line pool node, slot = node ∨
      slot ∈ headSlot :: line := by
    intro slot member
    rcases List.mem_cons.mp member with rfl | isEntered
    · exact Or.inr List.mem_cons_self
    · exact (mem_entered.mp isEntered).imp_right (List.mem_cons_of_mem _)
  refine ⟨?threaded, lanes.headUnmarked, lanes.tailNil, ?marked, ?valid, ?down, ?top⟩
  case threaded =>
    intro level low
    refine (lanes.threaded level low).of_superlist (nodup_enter distinct new) entered_sublist
      fun slot member absent linked => ?_
    rw [(mem_entered.mp member).resolve_right absent] at linked
    exact linked.ne_nil (nil level)
  case marked =>
    intro slot member level marked
    rcases mem_entered.mp member with rfl | isOld
    · rw [nil, Link.isMarked_nil] at marked
      exact absurd marked Bool.false_ne_true
    · exact lanes.marked slot isOld level marked
  case valid =>
    intro slot member level low
    rcases inLine slot member with rfl | isOld
    · rw [valid] at low
      exact absurd low (Nat.not_lt_zero _)
    · exact lanes.valid slot isOld level low
  case down =>
    intro slot member level below le there
    rcases inLine slot member with rfl | isOld
    · exact absurd (nil level) there
    · exact lanes.down slot isOld level below le there
  case top =>
    intro slot member level there
    rcases inLine slot member with rfl | isOld
    · exact absurd (nil level) there
    · exact lanes.top slot isOld level there

end Entered

/-! ### A node that is linked at a level -/

/-- A node that is linked below a level may be linked there between two neighbours. -/
theorem Lanes.interposed {maxHeight : Nat} {line : List Nat} {start pool : Pool maxLevels Entry}
    {prev node next level : Nat} (lanes : Lanes maxHeight line start pool)
    (distinct : (spine line).Nodup) (reached : level < maxLevels) (prevInside : prev < pool.size)
    (nodeInside : node < pool.size) (nextInside : next < pool.size)
    (prevMember : prev ∈ headSlot :: line) (nodeMember : node ∈ line)
    (prevTo : pool.linkOf prev level = Link.ofSlot next)
    (nodeNil : pool.linkOf node level = Link.nil)
    (below : ∀ lower < level, pool.linkOf node lower ≠ Link.nil)
    (fits : level < (start.bodyOf node).height) (prevBefore : rank line prev < rank line node)
    (nodeBefore : rank line node < rank line next) :
    Lanes maxHeight line start (pool.interposed prev node next level) := by
  have others : ∀ slot height, ¬ (slot = prev ∧ height = level) →
      ¬ (slot = node ∧ height = level) →
      (pool.interposed prev node next level).linkOf slot height = pool.linkOf slot height :=
    fun _ _ => linkOf_interposed_of_ne reached prevInside nodeInside
  have unmarked : ∀ slot height,
      ((pool.interposed prev node next level).linkOf slot height).isMarked = true →
      (pool.linkOf slot height).isMarked = true :=
    fun _ _ => isMarked_of_interposed reached prevInside nodeInside nextInside
  have there : ∀ slot height, pool.linkOf slot height ≠ Link.nil →
      (pool.interposed prev node next level).linkOf slot height ≠ Link.nil :=
    fun _ _ => linkOf_interposed_ne_nil reached prevInside nodeInside nextInside
  have wasThere : ∀ slot height, ¬ (slot = node ∧ height = level) →
      (pool.interposed prev node next level).linkOf slot height ≠ Link.nil →
      pool.linkOf slot height ≠ Link.nil :=
    fun _ _ => linkOf_ne_nil_of_interposed reached prevInside nodeInside nextInside prevTo
  refine ⟨?threaded, ?headUnmarked, ?tailNil, ?marked, ?valid, ?down, ?top⟩
  case threaded =>
    intro height low
    by_cases here : height = level
    · subst here
      exact (lanes.threaded height low).interposed reached prevInside nodeInside nextInside
        prevMember nodeMember prevTo nodeNil prevBefore nodeBefore
    · exact (lanes.threaded height low).congr fun slot _ => Pool.next?_congr
        (others slot height (fun same => here same.2) fun same => here same.2)
  case headUnmarked =>
    intro height
    refine Bool.eq_false_iff.mpr fun marked => ?_
    have before := unmarked headSlot height marked
    rw [lanes.headUnmarked] at before
    exact Bool.false_ne_true before
  case tailNil =>
    intro height
    have notPrev : tailSlot ≠ prev := by
      rintro rfl
      rcases List.mem_cons.mp prevMember with same | member
      · exact absurd same (by decide)
      · exact tail_not_mem distinct member
    have notNode : tailSlot ≠ node := fun same => tail_not_mem distinct (same ▸ nodeMember)
    rw [others tailSlot height (fun same => notPrev same.1) fun same => notNode same.1]
    exact lanes.tailNil height
  case marked =>
    intro slot member height marked
    exact lanes.marked slot member height (unmarked slot height marked)
  case valid =>
    intro slot member height low
    exact there slot height (lanes.valid slot member height low)
  case down =>
    intro slot member height lower le after
    by_cases isNode : slot = node ∧ height = level
    · rcases Nat.eq_or_lt_of_le le with same | less
      · rw [same]
        exact after
      · rw [isNode.2] at less
        rw [isNode.1]
        exact there node lower (below lower less)
    · exact there slot lower
        (lanes.down slot member height lower le (wasThere slot height isNode after))
  case top =>
    intro slot member height after
    by_cases isNode : slot = node ∧ height = level
    · rw [isNode.1, isNode.2]
      exact fits
    · exact lanes.top slot member height (wasThere slot height isNode after)

end PriorityQueue

end PooledContainers
