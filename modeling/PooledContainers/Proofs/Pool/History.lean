/-
The runs of a pool at work, and the counts on its slots. A count belongs to a handle, or to a
reference back, or to neither: it is detached once its handle was given up without it. Nothing in
the pool tells how many counts are detached, so they are kept beside the session, and a step adds to
them or takes from them what its answer reveals.
-/

import PooledContainers.Pool.Session
import PooledContainers.Proofs.Pool.Balance
import PooledContainers.Proofs.Session

namespace PooledContainers

namespace Pool

variable {levels : Nat} {Body : Type} [Inhabited Body]

/-! ### Counts -/

/-- The number of handles on a slot. -/
def handlesOn (handles : HandleTable Nat) (slot : Nat) : Nat :=
  handles.total fun held => if held = slot then 1 else 0

/-- The counts on a slot: of handles, detached, and of references back. -/
def countsOn (detached : Nat → Nat) (session : Session (Workbench levels Body) Nat)
    (slot : Nat) : Nat :=
  handlesOn session.handles slot + detached slot + session.subject.pool.backCount slot

/-- Counts with one less on a slot. -/
def dropCount (counts : Nat → Nat) (slot : Nat) : Nat → Nat := fun other =>
  counts other - if other = slot then 1 else 0

theorem addCount_dropCount {counts : Nat → Nat} {slot : Nat} (there : 0 < counts slot) :
    addCount (dropCount counts slot) slot = counts := by
  funext other
  unfold addCount dropCount
  by_cases same : other = slot
  · subst same
    rw [if_pos rfl]
    exact Nat.sub_add_cancel there
  · rw [if_neg same]
    rfl

/-- The detached counts after a slot was put under a name. The count of a handle that is displaced
stays without it. -/
def displacing (detached : Nat → Nat) (handles : HandleTable Nat) (name : String) : Nat → Nat :=
  (handles.find? name).elim detached (addCount detached)

/-- The detached counts after a step. -/
def nextDetached (detached : Nat → Nat) (session : Session (Workbench levels Body) Nat) :
    Step → Answer → Nat → Nat
  | .allocate name, .allocation (.ok _) => displacing detached session.handles name
  | .clone _ copy, .slot (some _) => displacing detached session.handles copy
  | .detach _, .slot (some slot) => addCount detached slot
  | .adopt slot name, .done => displacing (dropCount detached slot) session.handles name
  | .retain _ name, .done => displacing detached session.handles name
  | .follow _ name, .slot (some _) => displacing detached session.handles name
  | .store (.back _) link, .done => link.slot?.elim detached (dropCount detached)
  | _, _ => detached

/-! ### Steps that may be taken -/

omit [Inhabited Body] in
/-- The link that is kept at a place, if there is such a place. -/
def Workbench.linkIn? (workbench : Workbench levels Body) : Place → Option Link
  | .cell index => workbench.cells[index]?
  | .link slot level => workbench.pool.link? slot level
  | .back slot => (workbench.pool.node? slot).bind Node.back

/-- Whether a place is there for any link to be written. Cells and the links of live nodes are;
the links of free nodes are for the pool to write, and references back stand for counts. -/
def Workbench.isOpen (workbench : Workbench levels Body) : Place → Bool
  | .cell index => decide (index < cellCount)
  | .link slot level =>
    decide (slot < workbench.pool.size ∧ level < levels ∧ workbench.pool.counterOf slot % 2 = 0)
  | .back _ => false

/-- Whether a step keeps the rules: only a detached count is adopted, or handed over to a reference
back of a live node that is nil, and slots that are named exist. -/
def keepsRules (detached : Nat → Nat) (session : Session (Workbench levels Body) Nat) :
    Step → Bool
  | .adopt slot _ => decide (0 < detached slot)
  | .retain slot _ => decide (slot < session.subject.pool.size)
  | .isLive slot => decide (slot < session.subject.pool.size)
  | .follow place _ => (session.subject.linkIn? place).any fun link =>
    link.isMarked || link.slot?.all fun slot => decide (slot < session.subject.pool.size)
  | .load place => (session.subject.linkIn? place).isSome
  | .store (.back slot) link =>
    decide (slot < session.subject.pool.size ∧ session.subject.pool.counterOf slot % 2 = 0 ∧
      session.subject.pool.backOf slot = some Link.nil) &&
    link.slot?.any fun target => link == Link.ofSlot target && decide (0 < detached target)
  | .store place _ => session.subject.isOpen place
  | .swap place _ _ => session.subject.isOpen place
  | .mark place => session.subject.isOpen place
  | _ => true

/-! ### Runs -/

/-- The sessions that a run gets to, with their detached counts: it starts from a pool that is all
free and takes steps that keep the rules, in any order. -/
inductive Reached (size : Nat) (back : Option Link) (body : Body) :
    (Nat → Nat) → Session (Workbench levels Body) Nat → Prop
  | start [NodeKind levels Body] {pool : Pool levels Body}
      (made : reserve 0 size back body = .ok pool) :
    Reached size back body (fun _ => 0) (Session.start (Workbench.ofPool pool))
  | step {detached : Nat → Nat} {session after : Session (Workbench levels Body) Nat} {step : Step}
      {answer : Answer} (reached : Reached size back body detached session)
      (kept : keepsRules detached session step = true)
      (taken : take step session = .ok (answer, after)) :
    Reached size back body (nextDetached detached session step answer) after

/-- The session and the detached counts to which some steps lead, as long as they keep the
rules. -/
def followSteps (detached : Nat → Nat) (session : Session (Workbench levels Body) Nat) :
    List Step → Option ((Nat → Nat) × Session (Workbench levels Body) Nat)
  | [] => some (detached, session)
  | step :: rest =>
    if keepsRules detached session step then
      match take step session with
      | .ok (answer, after) => followSteps (nextDetached detached session step answer) after rest
      | .error _ => none
    else none

/-- The session and the detached counts to which some steps lead from a pool that is all free. -/
def followFromStart (levels size : Nat) [NodeKind levels Body] (back : Option Link) (body : Body)
    (steps : List Step) : Option ((Nat → Nat) × Session (Workbench levels Body) Nat) :=
  match reserve 0 size back body with
  | .ok pool => followSteps (fun _ => 0) (Session.start (Workbench.ofPool pool)) steps
  | .error _ => none

section Following

variable {size : Nat} {back : Option Link} {body : Body} {detached last : Nat → Nat}
  {session after : Session (Workbench levels Body) Nat} {steps : List Step}

theorem Reached.followSteps (reached : Reached size back body detached session)
    (followed : Pool.followSteps detached session steps = some (last, after)) :
    Reached size back body last after := by
  induction steps generalizing detached session with
  | nil =>
    obtain ⟨rfl, rfl⟩ := Prod.mk.inj (Option.some.inj followed)
    exact reached
  | cons step rest inductionHypothesis =>
    unfold Pool.followSteps at followed
    split at followed
    next kept =>
      split at followed
      next answer middle taken => exact inductionHypothesis (reached.step kept taken) followed
      next => exact absurd followed (by simp)
    next => exact absurd followed (by simp)

theorem Reached.of_steps [NodeKind levels Body]
    (followed : followFromStart levels size back body steps = some (last, after)) :
    Reached size back body last after := by
  unfold followFromStart at followed
  split at followed
  next pool made => exact (Reached.start made).followSteps followed
  next => exact absurd followed (by simp)

end Following

end Pool

end PooledContainers
