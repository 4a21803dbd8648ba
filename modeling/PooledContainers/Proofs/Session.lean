/-
How the steps of a session act on its subject and on its handles. A name that stands for a handle
sets that handle apart from all others, so that what is summed or counted over the handles changes
by exactly that handle when the name is erased or put anew.
-/

import Mathlib.Algebra.GroupWithZero.Nat
import Mathlib.Data.List.Perm.Basic
import PooledContainers.Proofs.Pool.View
import PooledContainers.Sentinel
import PooledContainers.Session

namespace PooledContainers

namespace HandleTable

variable {Handle : Type} {table : HandleTable Handle} {name : String} {handle : Handle}

/-! ### One handle and the others -/

private theorem perm_of_lookup {entries : List (String × Handle)}
    (distinct : (entries.map Prod.fst).Nodup) (found : entries.lookup name = some handle) :
    entries.Perm ((name, handle) :: entries.filter fun entry => entry.1 != name) := by
  induction entries with
  | nil => exact absurd found (by simp)
  | cons entry rest inductionHypothesis =>
    obtain ⟨key, first⟩ := entry
    obtain ⟨apart, distinct⟩ := List.nodup_cons.mp distinct
    by_cases same : name = key
    · subst same
      rw [List.lookup_cons_self] at found
      have others : rest.filter (fun entry => entry.1 != name) = rest := by
        refine List.filter_eq_self.mpr fun entry member => bne_iff_ne.mpr fun equal => ?_
        exact apart (List.mem_map.mpr ⟨entry, member, equal⟩)
      rw [List.filter_cons_of_neg (by simp), others, Option.some.inj found]
    · have passed : rest.lookup name = some handle := by
        rw [List.lookup_cons, beq_false_of_ne same] at found
        exact found
      rw [List.filter_cons, if_pos (bne_iff_ne.mpr (Ne.symm same))]
      exact ((inductionHypothesis distinct passed).cons _).trans (List.Perm.swap _ _ _)

/-- The handles are the one under a name and those that are left when it is erased. -/
theorem handles_perm (found : table.find? name = some handle) :
    table.handles.Perm (handle :: (table.erase name).handles) :=
  (perm_of_lookup table.distinct found).map Prod.snd

/-- A name that stands for nothing may be erased. -/
theorem handles_erase_of_none (absent : table.find? name = none) :
    (table.erase name).handles = table.handles := by
  have others : table.entries.filter (fun entry => entry.1 != name) = table.entries := by
    refine List.filter_eq_self.mpr fun entry member => bne_iff_ne.mpr fun equal => ?_
    have apart := List.lookup_eq_none_iff.mp absent entry member
    rw [equal] at apart
    exact (bne_iff_ne.mp apart) rfl
  exact congrArg (List.map Prod.snd) others

theorem handles_put (table : HandleTable Handle) (name : String) (handle : Handle) :
    (table.put name handle).handles = handle :: (table.erase name).handles := rfl

theorem mem_handles_of_find? (found : table.find? name = some handle) : handle ∈ table.handles :=
  (handles_perm found).mem_iff.mpr List.mem_cons_self

theorem handles_erase_sublist (table : HandleTable Handle) (name : String) :
    (table.erase name).handles.Sublist table.handles :=
  List.filter_sublist.map Prod.snd

/-! ### Sums over the handles -/

/-- What all handles weigh. -/
def total (table : HandleTable Handle) (weight : Handle → Nat) : Nat :=
  (table.handles.map weight).sum

variable (weight : Handle → Nat)

theorem total_put (table : HandleTable Handle) (name : String) (handle : Handle) :
    (table.put name handle).total weight = weight handle + (table.erase name).total weight := by
  unfold total
  rw [handles_put, List.map_cons, List.sum_cons]

theorem total_of_find? (found : table.find? name = some handle) :
    table.total weight = weight handle + (table.erase name).total weight := by
  unfold total
  rw [((handles_perm found).map weight).sum_nat, List.map_cons, List.sum_cons]

theorem total_of_none (absent : table.find? name = none) :
    (table.erase name).total weight = table.total weight := by
  unfold total
  rw [handles_erase_of_none absent]

theorem total_of_nil (released : table.handles = []) : table.total weight = 0 := by
  unfold total
  rw [released]
  rfl

/-! ### Owners -/

section Owners

variable (owner : Handle → Bool) (node : Handle → Nat)

/-- The nodes of the handles that own something. -/
def owned (table : HandleTable Handle) : List Nat := (table.handles.filter owner).map node

/-- Every handle fits, and what is owned is due and owned by one handle only. -/
structure Kept (fits : Handle → Prop) (due : Nat → Prop) (table : HandleTable Handle) : Prop where
  fits : ∀ handle ∈ table.handles, fits handle
  ownedOnce : (table.owned owner node).Nodup
  owned : ∀ slot ∈ table.owned owner node, due slot

variable {owner node}

theorem owned_erase_sublist (table : HandleTable Handle) (name : String) :
    ((table.erase name).owned owner node).Sublist (table.owned owner node) :=
  ((handles_erase_sublist table name).filter _).map _

theorem owned_put_of_not_owner (table : HandleTable Handle) (name : String)
    (notOwner : owner handle = false) :
    (table.put name handle).owned owner node = (table.erase name).owned owner node := by
  unfold owned
  rw [handles_put, List.filter_cons, notOwner, if_neg Bool.false_ne_true]

theorem owned_put_owner (table : HandleTable Handle) (name : String)
    (isOwner : owner handle = true) :
    (table.put name handle).owned owner node =
      node handle :: (table.erase name).owned owner node := by
  unfold owned
  rw [handles_put, List.filter_cons, isOwner, if_pos rfl, List.map_cons]

theorem owned_perm (found : table.find? name = some handle) (isOwner : owner handle = true) :
    (table.owned owner node).Perm (node handle :: (table.erase name).owned owner node) := by
  have permuted := ((handles_perm found).filter owner).map node
  rwa [List.filter_cons, isOwner, if_pos rfl, List.map_cons] at permuted

theorem mem_owned (found : table.find? name = some handle) (isOwner : owner handle = true) :
    node handle ∈ table.owned owner node :=
  (owned_perm found isOwner).mem_iff.mpr List.mem_cons_self

namespace Kept

variable {fits laterFits : Handle → Prop} {due laterDue : Nat → Prop}

theorem empty : Kept owner node fits due HandleTable.empty :=
  ⟨nofun, List.nodup_nil, nofun⟩

theorem erase (kept : Kept owner node fits due table) (name : String) :
    Kept owner node fits due (table.erase name) where
  fits other member := kept.fits other ((handles_erase_sublist table name).subset member)
  ownedOnce := kept.ownedOnce.sublist (owned_erase_sublist table name)
  owned slot member := kept.owned slot ((owned_erase_sublist table name).subset member)

/-- A handle that owns nothing may be put anywhere where it fits. -/
theorem put (kept : Kept owner node fits due table) (name : String) (fit : fits handle)
    (notOwner : owner handle = false) : Kept owner node fits due (table.put name handle) := by
  have erased := kept.erase name
  have sameOwned : (table.put name handle).owned owner node =
      (table.erase name).owned owner node := owned_put_of_not_owner table name notOwner
  refine ⟨fun other member => ?_, sameOwned ▸ erased.ownedOnce, fun slot member => ?_⟩
  · rcases List.mem_cons.mp member with rfl | rest
    · exact fit
    · exact erased.fits other rest
  · rw [sameOwned] at member
    exact erased.owned slot member

/-- A handle may come to own what is due and owned by nobody. -/
theorem own (kept : Kept owner node fits due table) (name : String) (handle : Handle)
    (fit : fits handle) (isOwner : owner handle = true)
    (free : node handle ∉ table.owned owner node) (isDue : due (node handle)) :
    Kept owner node fits due (table.put name handle) := by
  have erased := kept.erase name
  have nowOwned : (table.put name handle).owned owner node =
      node handle :: (table.erase name).owned owner node := owned_put_owner table name isOwner
  refine ⟨fun other member => ?_, ?_, fun slot member => ?_⟩
  · rcases List.mem_cons.mp member with rfl | rest
    · exact fit
    · exact erased.fits other rest
  · rw [nowOwned]
    exact List.nodup_cons.mpr
      ⟨fun member => free ((owned_erase_sublist table name).subset member), erased.ownedOnce⟩
  · rw [nowOwned] at member
    rcases List.mem_cons.mp member with rfl | rest
    · exact isDue
    · exact erased.owned slot rest

/-- Handles still fit and what is owned is still due. -/
theorem mono (kept : Kept owner node fits due table)
    (stillFits : ∀ handle ∈ table.handles, fits handle → laterFits handle)
    (stillDue : ∀ slot ∈ table.owned owner node, due slot → laterDue slot) :
    Kept owner node laterFits laterDue table :=
  ⟨fun handle member => stillFits handle member (kept.fits handle member), kept.ownedOnce,
    fun slot member => stillDue slot member (kept.owned slot member)⟩

/-- What is still owned when a handle that owns something is used up. -/
theorem finish (kept : Kept owner node fits due table) (found : table.find? name = some handle)
    (isOwner : owner handle = true)
    (stillDue : ∀ slot, slot ≠ node handle → due slot → laterDue slot) :
    Kept owner node fits laterDue (table.erase name) := by
  have apart := (List.nodup_cons.mp ((owned_perm found isOwner).nodup_iff.mp kept.ownedOnce)).1
  refine (kept.erase name).mono (fun _ _ fit => fit) fun slot member isDue => ?_
  refine stillDue slot ?_ isDue
  rintro rfl
  exact apart member

end Kept

end Owners

end HandleTable

/-! ### Steps -/

namespace Session

open Operation

variable {Subject Handle Outcome : Type} {session : Session Subject Handle} {name : String}
  {condition : Outcome → Session Subject Handle → Prop}

theorem act_ends {operation : Operation Subject Outcome}
    (ends : Ends operation session.subject fun outcome subject =>
      condition outcome { session with subject }) : Ends (act operation) session condition :=
  Ends.within ends

/-- What a step is known to do that only wraps the outcome of an operation, the operation does. -/
theorem ends_of_act {Answer : Type} {operation : Operation Subject Outcome}
    {wrap : Outcome → Answer} {condition : Answer → Session Subject Handle → Prop}
    (ends : Ends (act operation >>= fun outcome => pure (wrap outcome)) session condition) :
    Ends operation session.subject fun outcome subject =>
      condition (wrap outcome) { session with subject } :=
  ends.of_bind.of_within.imp fun _ _ wrapped => wrapped.of_ran rfl

theorem reading_ends {read : Subject → Except Fault Outcome} {outcome : Outcome}
    (found : read session.subject = .ok outcome) (holds : condition outcome session) :
    Ends (Session.reading read) session condition :=
  act_ends (Ends.reading found holds)

theorem put_ends {handle : Handle} {condition : Unit → Session Subject Handle → Prop}
    (holds : condition () { session with handles := session.handles.put name handle }) :
    Ends (put name handle) session condition :=
  Ends.updating holds

theorem forget_ends {condition : Unit → Session Subject Handle → Prop}
    (holds : condition () { session with handles := session.handles.erase name }) :
    Ends (forget name : Operation (Session Subject Handle) Unit) session condition :=
  Ends.updating holds

/-- A handle is kept under a name, and one that was there before is given up. -/
theorem keep_ends {giveUp : Handle → Operation Subject Unit} {handle : Handle}
    {condition : Unit → Session Subject Handle → Prop}
    (absent : session.handles.find? name = none →
      condition () { session with handles := session.handles.put name handle })
    (displaced : ∀ old, session.handles.find? name = some old →
      Ends (giveUp old) session.subject fun _ subject =>
        condition () ⟨subject, session.handles.put name handle⟩) :
    Ends (keep giveUp name handle) session condition := by
  unfold keep
  refine Ends.bind (Ends.reading rfl (Ends.bind (put_ends ?_)))
  cases found : session.handles.find? name with
  | none => exact Ends.pure (absent found)
  | some old => exact act_ends (displaced old found)

/-- A step with a handle is refused if there is none under the name. -/
theorem withHandle_ends {refuse : Refusal → Outcome}
    {proceed : Handle → Operation (Session Subject Handle) Outcome}
    (absent : session.handles.find? name = none → condition (refuse .noHandle) session)
    (present : ∀ handle, session.handles.find? name = some handle →
      Ends (proceed handle) session condition) :
    Ends (withHandle refuse name proceed) session condition := by
  unfold withHandle
  refine Ends.bind (Ends.reading rfl ?_)
  cases found : session.handles.find? name with
  | none => exact Ends.pure (absent found)
  | some handle => exact present handle found

/-- What a step with the handle under a name means; without one it is refused. -/
def HandleMeans (refuse : Refusal → Outcome) (session : Session Subject Handle) (answer : Outcome)
    (after : Session Subject Handle) (name : String) (means : Handle → Prop) : Prop :=
  match session.handles.find? name with
  | some handle => means handle
  | none => answer = refuse .noHandle ∧ after = session

section HandleMeans

variable {refuse : Refusal → Outcome} {answer : Outcome} {after : Session Subject Handle}
  {means : Handle → Prop}

theorem handleMeans_iff {handle : Handle} (found : session.handles.find? name = some handle) :
    HandleMeans refuse session answer after name means ↔ means handle := by
  unfold HandleMeans
  rw [found]

theorem HandleMeans.of_none (absent : session.handles.find? name = none) :
    HandleMeans refuse session (refuse .noHandle) session name means := by
  unfold HandleMeans
  rw [absent]
  exact ⟨rfl, rfl⟩

end HandleMeans

end Session

/-! ### Showing nodes -/

section Showing

open Operation

variable {levels : Nat} {Body Key : Type} [Inhabited Body] {pool : Pool levels Body} {slot : Nat}

/-- The name of the node of a slot. -/
def nameIn (pool : Pool levels Body) (key : Body → Key) (slot : Nat) : NodeName Key :=
  if slot = headSlot then .head
  else if slot = tailSlot then .tail
  else .entry (key (pool.bodyOf slot))

theorem nameOf_ends {key : Body → Key} {condition : NodeName Key → Pool levels Body → Prop}
    (inside : slot < pool.size) (holds : condition (nameIn pool key slot) pool) :
    Ends (nameOf key slot) pool condition := by
  unfold nameOf
  unfold nameIn at holds
  by_cases isHead : slot = headSlot
  · rw [if_pos isHead] at holds ⊢
    exact Ends.pure holds
  · rw [if_neg isHead] at holds ⊢
    by_cases isTail : slot = tailSlot
    · rw [if_pos isTail] at holds ⊢
      exact Ends.pure holds
    · rw [if_neg isTail] at holds ⊢
      exact Ends.bind (Pool.bodyAt_ends inside (Ends.pure holds))

end Showing

end PooledContainers
