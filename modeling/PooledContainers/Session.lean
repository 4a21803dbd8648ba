/-
Someone at work on a container or a pool, who keeps references under names between one step and the
next. The file has what all such sessions share: the subject, the handles, and how a step acts on
either. A step that may not be taken is refused with a reason and changes nothing.
-/

import PooledContainers.HandleTable
import PooledContainers.Operation

namespace PooledContainers

/-- A subject and the handles that are kept on it. -/
structure Session (Subject Handle : Type) where
  /-- What is worked on. -/
  subject : Subject
  /-- What is kept. -/
  handles : HandleTable Handle

/-- Why a step was refused. -/
inductive Refusal where
  /-- No handle has that name. -/
  | noHandle
  /-- The node is a sentinel. -/
  | sentinel
  /-- The node does not reach the level. -/
  | level
  /-- The deletion of the node is not committed. -/
  | notDeleted
  /-- The node's link carries no mark. -/
  | notMarked
  /-- The handle does not own a removal. -/
  | notOwner
deriving DecidableEq

namespace Session

variable {Subject Handle Outcome : Type}

/-- A session without handles. -/
def start (subject : Subject) : Session Subject Handle := ⟨subject, HandleTable.empty⟩

/-- Operate on the subject. -/
def act (operation : Operation Subject Outcome) : Operation (Session Subject Handle) Outcome :=
  Operation.within subject (fun session subject => { session with subject }) operation

/-- Read something off the subject. -/
def reading (read : Subject → Except Fault Outcome) :
    Operation (Session Subject Handle) Outcome :=
  act (Operation.reading read)

/-- The handle under a name. -/
def handle? (name : String) : Operation (Session Subject Handle) (Option Handle) :=
  Operation.reading fun session => .ok (session.handles.find? name)

/-- Put a handle under a name. -/
def put (name : String) (handle : Handle) : Operation (Session Subject Handle) Unit :=
  Operation.updating fun session =>
    { session with handles := session.handles.put name handle }

/-- Forget a name. -/
def forget (name : String) : Operation (Session Subject Handle) Unit :=
  Operation.updating fun session => { session with handles := session.handles.erase name }

/-- Put a new handle under a name, and then give up one that it displaces. -/
def keep (giveUp : Handle → Operation Subject Unit) (name : String) (handle : Handle) :
    Operation (Session Subject Handle) Unit := do
  let displaced ← handle? name
  put name handle
  match displaced with
  | some old => act (giveUp old)
  | none => pure ()

/-- Act with the handle under a name; without one the step is refused. -/
def withHandle (refuse : Refusal → Outcome) (name : String)
    (proceed : Handle → Operation (Session Subject Handle) Outcome) :
    Operation (Session Subject Handle) Outcome := do
  let handle ← handle? name
  match handle with
  | some handle => proceed handle
  | none => pure (refuse .noHandle)

/-- Give up handles one after another. -/
def giveUpAll (giveUp : Handle → Operation Subject Unit) : List Handle → Operation Subject Unit
  | [] => pure ()
  | handle :: rest => do
    giveUp handle
    giveUpAll giveUp rest

/-- Give up every handle: the subject that is left. -/
def close (giveUp : Handle → Operation Subject Unit) (session : Session Subject Handle) :
    Except Fault Subject :=
  match giveUpAll giveUp session.handles.handles session.subject with
  | .ok (_, subject) => .ok subject
  | .error fault => .error fault

end Session

end PooledContainers
