/-
The runs of a queue and what is to be known about them that its nodes do not tell: which nodes were
linked by an insert and have not been finished yet, and in which order they were inserted. Both are
kept in a history beside the session. A step adds to it what its answer reveals.
-/

import PooledContainers.PriorityQueue.Session
import PooledContainers.Proofs.Holdings
import PooledContainers.Proofs.PriorityQueue.Consistent
import PooledContainers.Proofs.Session

namespace PooledContainers

namespace PriorityQueue

/-! ### What is in a queue -/

/-- A slot holds a node that was inserted and has not been reclaimed: it is no sentinel, and its
counter carries no claim. -/
def Inserted (pool : Pool maxLevels Entry) (slot : Nat) : Prop :=
  isSentinel slot = false ∧ slot < pool.size ∧ pool.counterOf slot % 2 = 0

instance (pool : Pool maxLevels Entry) (slot : Nat) : Decidable (Inserted pool slot) :=
  inferInstanceAs (Decidable (_ ∧ _ ∧ _))

/-- A slot holds a node whose deletion is not committed. -/
def Live (pool : Pool maxLevels Entry) (slot : Nat) : Prop :=
  Inserted pool slot ∧ ¬ Deleted pool slot

instance (pool : Pool maxLevels Entry) (slot : Nat) : Decidable (Live pool slot) :=
  inferInstanceAs (Decidable (_ ∧ _))

/-- The live slots. -/
def liveSlots (pool : Pool maxLevels Entry) : List Nat :=
  (List.range pool.size).filter fun slot => decide (Live pool slot)

/-- What a queue holds: the payload of the live node with a key. -/
def contents (queue : PriorityQueue) : UInt64 → Option UInt64 :=
  Holdings.lookup (liveSlots queue.pool) (keyOf queue.pool) fun slot =>
    (queue.pool.bodyOf slot).datum.payload

/-! ### Handles -/

/-- The number of handles on a slot. -/
def handlesOn (handles : HandleTable Handle) (slot : Nat) : Nat :=
  handles.total fun handle => if handle.node = slot then 1 else 0

/-- The nodes whose removal a handle owns. -/
abbrev ownedNodes (handles : HandleTable Handle) : List Nat :=
  handles.owned Handle.owner Handle.node

/-! ### Histories -/

/-- What has happened to the nodes of a queue. -/
structure History where
  /-- The number of entries inserted so far. -/
  clock : Nat
  /-- When the node of a slot was inserted. -/
  birth : Nat → Nat
  /-- Whether the node of a slot was linked by an insert and its removal has not been finished. -/
  pending : Nat → Bool

namespace History

/-- Nothing has happened yet. -/
def start : History := ⟨0, fun _ => 0, fun _ => false⟩

/-- A node was inserted in a slot. -/
def inserted (history : History) (slot : Nat) : History where
  clock := history.clock + 1
  birth other := if other = slot then history.clock else history.birth other
  pending := await history.pending slot

/-- The removal of the node of a slot was finished. -/
def finished (history : History) (slot : Nat) : History :=
  { history with pending := finish history.pending slot }

/-- What a step adds to a history. An insert takes the first free slot. The removal of the smallest
entry finishes the live node with the key that it answers, and a completed removal finishes the node
of the handle that owns it. -/
def next (history : History) (session : Session PriorityQueue Handle) :
    Step → Answer → History
  | .insert _ _ _, .insertion (.ok .inserted) =>
    match session.subject.pool.freeHead.slot? with
    | some slot => history.inserted slot
    | none => history
  | .extractMin, .entry (some entry) =>
    match (liveSlots session.subject.pool).find? fun slot =>
        keyOf session.subject.pool slot == entry.1 with
    | some slot => history.finished slot
    | none => history
  | .complete name, .payload _ =>
    match session.handles.find? name with
    | some handle => history.finished handle.node
    | none => history
  | _, _ => history

end History

/-! ### Runs -/

/-- Whether a hint leads towards the head: it names the head or a node with a smaller key. All other
steps may be taken as they are. -/
def leadsBack (session : Session PriorityQueue Handle) : Step → Bool
  | .hint name predecessor =>
    match session.handles.find? name, session.handles.find? predecessor with
    | some handle, some other => other.node == headSlot ||
      decide (keyOf session.subject.pool other.node < keyOf session.subject.pool handle.node)
    | _, _ => true
  | _ => true

theorem leadsBack_hint {session : Session PriorityQueue Handle} {name predecessor : String}
    {handle other : Handle} (found : session.handles.find? name = some handle)
    (foundOther : session.handles.find? predecessor = some other) :
    leadsBack session (.hint name predecessor) = true ↔ other.node = headSlot ∨
      keyOf session.subject.pool other.node < keyOf session.subject.pool handle.node := by
  show (match session.handles.find? name, session.handles.find? predecessor with
    | some handle, some other => other.node == headSlot ||
      decide (keyOf session.subject.pool other.node < keyOf session.subject.pool handle.node)
    | _, _ => true) = true ↔ _
  rw [found, foundOther, Bool.or_eq_true, beq_iff_eq, decide_eq_true_eq]

/-- The sessions that a legal run gets to, with their histories: it starts from an empty queue and
takes steps in any order, of which only a hint that is given has a condition to meet. -/
inductive Reached (options : Options) : History → Session PriorityQueue Handle → Prop
  | start [NodeKind maxLevels Entry] {queue : PriorityQueue}
      (made : ofOptions options = .ok queue) :
    Reached options History.start (Session.start queue)
  | step {history : History} {session after : Session PriorityQueue Handle} {step : Step}
      {answer : Answer} (reached : Reached options history session)
      (towards : answer = .flag true → leadsBack session step = true)
      (taken : take step session = .ok (answer, after)) :
    Reached options (history.next session step answer) after

/-- The session and the history to which some steps lead, as long as all hints lead towards the
head. -/
def follow (history : History) (session : Session PriorityQueue Handle) :
    List Step → Option (History × Session PriorityQueue Handle)
  | [] => some (history, session)
  | step :: rest =>
    if leadsBack session step then
      match take step session with
      | .ok (answer, after) => follow (history.next session step answer) after rest
      | .error _ => none
    else none

/-- The session and the history to which some steps lead from an empty queue. -/
def followFromStart (options : Options) (steps : List Step) :
    Option (History × Session PriorityQueue Handle) :=
  match ofOptions options with
  | .ok queue => follow History.start (Session.start queue) steps
  | .error _ => none

theorem Reached.follow {options : Options} {history last : History}
    {session after : Session PriorityQueue Handle} {steps : List Step}
    (reached : Reached options history session)
    (followed : PriorityQueue.follow history session steps = some (last, after)) :
    Reached options last after := by
  induction steps generalizing history session with
  | nil =>
    obtain ⟨rfl, rfl⟩ := Prod.mk.inj (Option.some.inj followed)
    exact reached
  | cons step rest inductionHypothesis =>
    unfold PriorityQueue.follow at followed
    split at followed
    next towards =>
      split at followed
      next answer middle taken =>
        exact inductionHypothesis (Reached.step reached (fun _ => towards) taken) followed
      next => exact absurd followed (by simp)
    next => exact absurd followed (by simp)

theorem Reached.of_steps {options : Options} {last : History}
    {after : Session PriorityQueue Handle} {steps : List Step}
    (followed : followFromStart options steps = some (last, after)) :
    Reached options last after := by
  unfold followFromStart at followed
  split at followed
  next queue made => exact (Reached.start made).follow followed
  next => exact absurd followed (by simp)

end PriorityQueue

end PooledContainers
