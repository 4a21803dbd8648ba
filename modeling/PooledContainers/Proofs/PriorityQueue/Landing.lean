/-
Where the search for a successor lands. It steps back from a node that is deleted, and from one
whose link is marked, but it follows an unmarked link wherever it finds one. So it ends at a deleted
node if a reference back leads there that is out of date, and at a live one otherwise.
-/

import PooledContainers.Proofs.PriorityQueue.Runs

namespace PooledContainers

namespace PriorityQueue

open Line Operation Pool

/-- Take a count on a node and exchange it for the successor at a level, behind the predecessor from
which it was read. -/
def successorOf (node level : Nat) : Operation PriorityQueue (Nat × Nat) :=
  onLevels walkBound fun helping _ => do
    Pool.retain node
    helping.successor node level

/-- The search for a successor ended on the level, and at a deleted node only if a reference back
said so that was out of date before. -/
structure Landed (queue : PriorityQueue) (level : Nat) (position : Nat × Nat)
    (after : PriorityQueue) : Prop where
  met : after.pool.Met level position.1
  unmarked : (after.pool.linkOf position.1 level).isMarked = false
  leads : after.pool.next? level position.1 = some position.2
  vouched : Deleted after.pool position.1 →
    ∃ other, Inserted queue.pool other ∧ StaleHint queue.pool level other position.1

namespace InOrder

variable {options : Options} {history : History} {session : Session PriorityQueue Handle}
  {line free : List Nat} {node level hint : Nat}

/-- The search as the walks on the ground of the session describe it. -/
theorem successorOf_ends (inOrder : InOrder options history session line free)
    (member : node ∈ headSlot :: line)
    (reached : level < (session.subject.pool.bodyOf node).height) :
    Ends (successorOf node level) session.subject fun position after =>
      inOrder.consistent.ground.Succeeded [] node level (session.subject.pool.retained node)
        position after.pool := by
  exact inOrder.startingFrom_ends member (inOrder.successorFromNode_ends member reached)

theorem successorOf_lands (inOrder : InOrder options history session line free)
    (member : node ∈ headSlot :: line)
    (reached : level < (session.subject.pool.bodyOf node).height) :
    Ends (successorOf node level) session.subject (Landed session.subject level) := by
  have consistent := inOrder.consistent
  refine (inOrder.successorOf_ends member reached).imp fun position after followed => ?_
  have nextSpine := followed.adjacent.mem_spine
  have nextLimit := size_lt_slotLimit (followed.holds.inside nextSpine)
  have leads : after.pool.next? level position.1 = some position.2 :=
    next?_of_linkOf followed.leads nextLimit
  have unmarked : (after.pool.linkOf position.1 level).isMarked = false := by
    rw [followed.leads, Link.isMarked_ofSlot nextLimit]
  refine ⟨(consistent.walked followed.holds followed.mem_spine).met_of_linked followed.member
    (Linked.of_next? leads), unmarked, leads, fun deleted => ?_⟩
  obtain ⟨other, otherMember, stale⟩ := followed.vouched
    ((deleted_congr (followed.holds.tidied.body position.1)).mp deleted) unmarked
  exact ⟨other, (consistent.inserted_iff other).mpr otherMember,
    ((Heeded.of_recount _ _ _).trans followed.heeded) _ _ _ stale⟩

/-- A node with a reference back that is out of date reaches the level. -/
theorem reached_of_stale (inOrder : InOrder options history session line free)
    (member : node ∈ line) (stale : StaleHint session.subject.pool level node hint) :
    level < (session.subject.pool.bodyOf node).height := by
  refine inOrder.consistent.lanes.top node (List.mem_cons_of_mem _ member) level ?_
  rw [stale.off]
  exact Link.cleared_ne_nil

/-- From such a node the search ends where the reference back leads. -/
theorem successorOf_astray (inOrder : InOrder options history session line free)
    (member : node ∈ line) (stale : StaleHint session.subject.pool level node hint) :
    Ends (successorOf node level) session.subject fun position after =>
      position.1 = hint ∧ Deleted after.pool position.1 := by
  refine (inOrder.successorOf_ends (List.mem_cons_of_mem _ member)
    (inOrder.reached_of_stale member stale)).imp fun position after followed => ?_
  have same := followed.astray hint (stale.recount _ _)
  rw [same]
  exact ⟨rfl, (deleted_congr (followed.holds.tidied.body hint)).mpr stale.deleted⟩

end InOrder

/-- Where the searches for successors in a queue land. -/
structure Landings (session : Session PriorityQueue Handle) : Prop where
  /-- A handle is on a sentinel or on a node that was inserted, whatever became of it since. -/
  held : ∀ name handle, session.handles.find? name = some handle →
    isSentinel handle.node = true ∨ Inserted session.subject.pool handle.node
  lands : ∀ node level, node = headSlot ∨ Inserted session.subject.pool node →
    level < (session.subject.pool.bodyOf node).height →
      Ends (successorOf node level) session.subject (Landed session.subject level)
  astray : ∀ node level hint, Inserted session.subject.pool node →
    StaleHint session.subject.pool level node hint →
      Ends (successorOf node level) session.subject fun position after =>
        position.1 = hint ∧ Deleted after.pool position.1
  /-- All searches along a level end at live nodes just if no reference back is out of date
  there. -/
  live_iff : ∀ level, (∀ node, node = headSlot ∨ Inserted session.subject.pool node →
      level < (session.subject.pool.bodyOf node).height →
        Ends (successorOf node level) session.subject fun position after =>
          ¬ Deleted after.pool position.1) ↔
    ∀ node hint, Inserted session.subject.pool node →
      ¬ StaleHint session.subject.pool level node hint

/-- In every session of a legal run the searches for successors end at live nodes, but for
references back that are out of date. -/
theorem successors_land {options : Options} {history : History}
    {session : Session PriorityQueue Handle} (reached : Reached options history session) :
    Landings session := by
  obtain ⟨line, free, inOrder⟩ := reached.inOrder
  have inserted_iff := inOrder.consistent.inserted_iff
  have inner (node : Nat) (starts : node = headSlot ∨ Inserted session.subject.pool node) :
      node ∈ headSlot :: line := List.mem_cons.mpr (starts.imp_right (inserted_iff node).mp)
  refine ⟨fun _ _ found => inOrder.handle_inserted found, fun node level starts low =>
    inOrder.successorOf_lands (inner node starts) low, fun node level hint inserted stale =>
      inOrder.successorOf_astray ((inserted_iff node).mp inserted) stale,
    fun level => ⟨fun live node hint inserted stale => ?stale, fun fresh node starts low => ?live⟩⟩
  case stale =>
    have member := (inserted_iff node).mp inserted
    obtain ⟨position, after, ran, -, deleted⟩ := inOrder.successorOf_astray member stale
    exact (live node (Or.inr inserted) (inOrder.reached_of_stale member stale)).of_ran ran deleted
  case live =>
    refine (inOrder.successorOf_lands (inner node starts) low).imp fun position after landed => ?_
    intro deleted
    obtain ⟨other, inserted, stale⟩ := landed.vouched deleted
    exact fresh other position.1 inserted stale

/-! ### A reference back that is out of date -/

/-- Two entries are inserted. The second one is committed, with the first one as its reference back,
and helped off level 0. Then the first one is committed, too. -/
def staleHinted : List Step :=
  [.insert 1 8 0, .insert 2 16 0, .hold "first" (.firstFrom 1), .hold "second" (.firstFrom 2),
    .commit "second", .hint "second" "first", .help "second" 0, .commit "first"]

/-- Whether the search for the successor of the node under a name at level 0 ends at a deleted
node. -/
def endsDeleted (session : Session PriorityQueue Handle) (name : String) : Bool :=
  match session.handles.find? name with
  | some handle =>
    match successorOf handle.node 0 session.subject with
    | .ok (position, after) => decide (0 < (session.subject.pool.bodyOf handle.node).height ∧
        Deleted after.pool position.1)
    | .error _ => false
  | none => false

/-- The search for the successor of a held node may end at a deleted node. -/
theorem successor_deleted : ∃ history session handle,
    followFromStart smallOptions staleHinted = some (history, session) ∧
      session.handles.find? "second" = some handle ∧
      0 < (session.subject.pool.bodyOf handle.node).height ∧
      Ends (successorOf handle.node 0) session.subject fun position after =>
        Deleted after.pool position.1 := by
  have found : ((followFromStart smallOptions staleHinted).filter fun reached =>
      endsDeleted reached.2 "second").isSome = true := by
    decide +kernel
  obtain ⟨⟨history, session⟩, same⟩ := Option.isSome_iff_exists.mp found
  obtain ⟨followed, ends⟩ := Option.filter_eq_some_iff.mp same
  unfold endsDeleted at ends
  split at ends
  next handle named =>
    split at ends
    next position after ran =>
      have both := of_decide_eq_true ends
      exact ⟨history, session, handle, followed, named, both.1, Ends.of_eq ran both.2⟩
    next => exact absurd ends Bool.false_ne_true
  next => exact absurd ends Bool.false_ne_true

/-- There is a reference back that is out of date then, and the searches land as they should. -/
theorem successors_land_staleHinted : ∃ history session first second,
    followFromStart smallOptions staleHinted = some (history, session) ∧
      session.handles.find? "first" = some first ∧ session.handles.find? "second" = some second ∧
      StaleHint session.subject.pool 0 second.node first.node ∧ Landings session := by
  have found : ((followFromStart smallOptions staleHinted).bind fun reached =>
      (reached.2.handles.find? "first").bind fun first =>
        ((reached.2.handles.find? "second").filter fun second =>
          decide (StaleHint reached.2.subject.pool 0 second.node first.node)).map fun second =>
            (reached, first, second)).isSome = true := by
    decide +kernel
  obtain ⟨_, same⟩ := Option.isSome_iff_exists.mp found
  obtain ⟨⟨history, session⟩, followed, others⟩ := Option.bind_eq_some_iff.mp same
  obtain ⟨first, firstNamed, other⟩ := Option.bind_eq_some_iff.mp others
  obtain ⟨second, filtered, -⟩ := Option.map_eq_some_iff.mp other
  obtain ⟨secondNamed, stale⟩ := Option.filter_eq_some_iff.mp filtered
  exact ⟨history, session, first, second, followed, firstNamed, secondNamed,
    of_decide_eq_true stale, successors_land (Reached.of_steps followed)⟩

end PriorityQueue

end PooledContainers
