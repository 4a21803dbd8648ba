/-
A pool at work: the pool itself, a few cells beside it that hold links, and named handles, each of
them one count on a node. A step is one thing that a user of the pool can do, with an answer.
Handles that are displaced or left at the end keep their counts.
-/

import PooledContainers.Pool.Actions
import PooledContainers.Session

namespace PooledContainers

namespace Pool

variable {levels : Nat} {Body : Type}

/-! ### What is asked and answered -/

/-- The number of cells beside a pool. -/
def cellCount : Nat := 4

/-- A pool and the cells beside it. -/
structure Workbench (levels : Nat) (Body : Type) where
  /-- The pool. -/
  pool : Pool levels Body
  /-- The cells, each holding a link. -/
  cells : Vector Link cellCount

/-- Where a link is kept. -/
inductive Place where
  /-- A cell beside the pool. -/
  | cell (index : Nat)
  /-- The link of a slot at a level. -/
  | link (slot level : Nat)
  /-- The reference back of a slot. -/
  | back (slot : Nat)

/-- What a user of a pool can do. -/
inductive Step where
  /-- Allocate a node and keep it under a name. -/
  | allocate (name : String)
  /-- Take a second count on a handle's node and keep it under another name. -/
  | clone (name copy : String)
  /-- Give up a handle and its count. -/
  | release (name : String)
  /-- Give up a handle while its count stays. -/
  | detach (name : String)
  /-- Make a handle of a count that is already there. -/
  | adopt (slot : Nat) (name : String)
  /-- Take a count on a slot and keep it under a name. -/
  | retain (slot : Nat) (name : String)
  /-- Follow the link at a place and keep what it names. -/
  | follow (place : Place) (name : String)
  /-- Store a link. -/
  | store (place : Place) (link : Link)
  /-- Load a link. -/
  | load (place : Place)
  /-- Replace the link at a place if it is the expected one. -/
  | swap (place : Place) (expected replacement : Link)
  /-- Set the mark of the link at a place. -/
  | mark (place : Place)
  /-- Show a handle. -/
  | inspect (name : String)
  /-- Whether a handle is on a slot. -/
  | isOn (name : String) (slot : Nat)
  /-- Whether a slot's node is live. -/
  | isLive (slot : Nat)
  /-- The size of the pool. -/
  | size
  /-- The text of the pool. -/
  | describe
  /-- The links and the reference back of every slot. -/
  | dump

/-- What a step answers. -/
inductive Answer where
  /-- The slot allocated, or why none was. -/
  | allocation (outcome : Except PoolError Nat)
  /-- A slot, or none. -/
  | slot (found : Option Nat)
  /-- A link. -/
  | link (found : Link)
  /-- Yes or no. -/
  | flag (value : Bool)
  /-- A handle: its slot and the counter of its node. -/
  | handle (slot counter : Nat)
  /-- A number. -/
  | number (value : Nat)
  /-- A text. -/
  | text (value : String)
  /-- The links and the reference back of every slot. -/
  | nodes (all : List (List Link × Option Link))
  /-- The step was refused. -/
  | refused (reason : Refusal)
  /-- Nothing to tell. -/
  | done

/-- The text of a handle. -/
def describeHandle (slot : Nat) : String := "Retained(" ++ toString slot ++ ")"

/-! ### Places -/

namespace Workbench

/-- A pool with nil cells beside it. -/
def ofPool (pool : Pool levels Body) : Workbench levels Body :=
  ⟨pool, Vector.replicate cellCount Link.nil⟩

/-- Act on the pool. -/
def onPool {Outcome : Type} (action : Action levels Body Outcome) :
    Operation (Workbench levels Body) Outcome :=
  Operation.within pool (fun workbench pool => { workbench with pool }) action

/-- The link of a cell, if there is such a cell. -/
def cellLink (index : Nat) (workbench : Workbench levels Body) : Except Fault Link :=
  match workbench.cells[index]? with
  | some link => .ok link
  | none => .error .outOfRange

/-- The link at a place. -/
def load : Place → Operation (Workbench levels Body) Link
  | .cell index => Operation.reading (cellLink index)
  | .link slot level => onPool (linkAt slot level)
  | .back slot => onPool (backAt slot)

/-- Store a link at a place. -/
def store (link : Link) : Place → Operation (Workbench levels Body) Unit
  | .cell index => do
    let _ ← Operation.reading (cellLink index)
    Operation.updating fun workbench =>
      { workbench with cells := workbench.cells.setIfInBounds index link }
  | .link slot level => onPool (setLink slot level link)
  | .back slot => onPool do
    let _ ← backAt slot
    setBack slot link

/-- The links and the reference back of every slot. -/
def dump (workbench : Workbench levels Body) : List (List Link × Option Link) :=
  workbench.pool.nodes.toList.map fun node => (node.links.toList, node.back)

end Workbench

/-! ### Taking steps -/

open Session Workbench

/-- Put a slot under a name and answer it. -/
def keepSlot (name : String) (slot : Nat) :
    Operation (Session (Workbench levels Body) Nat) Answer := do
  put name slot
  pure (.slot (some slot))

/-- Take one step. -/
def take : Step → Operation (Session (Workbench levels Body) Nat) Answer
  | .allocate name => do
    let outcome ← act (onPool Pool.allocate)
    match outcome with
    | .ok slot => do
      put name slot
      pure (.allocation (.ok slot))
    | .error error => pure (.allocation (.error error))
  | .clone name copy => withHandle .refused name fun slot => do
    act (onPool (Pool.retain slot))
    keepSlot copy slot
  | .release name => withHandle .refused name fun slot => do
    forget name
    act (onPool (Pool.release slot))
    pure .done
  | .detach name => withHandle .refused name fun slot => do
    forget name
    pure (.slot (some slot))
  | .adopt slot name => do
    put name slot
    pure .done
  | .retain slot name => do
    act (onPool (Pool.retain slot))
    put name slot
    pure .done
  | .follow place name => do
    let link ← act (load place)
    let found ← act (onPool (Pool.follow link))
    match found with
    | some slot => keepSlot name slot
    | none => pure (.slot none)
  | .store place link => do
    act (store link place)
    pure .done
  | .load place => do
    let link ← act (load place)
    pure (.link link)
  | .swap place expected replacement => do
    let found ← act (load place)
    let (swapped, link) := found.swap expected replacement
    act (store link place)
    pure (.flag swapped)
  | .mark place => do
    let found ← act (load place)
    let (marked, link) := found.mark
    act (store link place)
    pure (.flag marked)
  | .inspect name => withHandle .refused name fun slot => do
    let node ← act (onPool (Pool.nodeAt slot))
    pure (.handle slot node.counter)
  | .isOn name slot => withHandle .refused name fun own => pure (.flag (own == slot))
  | .isLive slot => do
    let live ← act (onPool (Pool.isLive slot))
    pure (.flag live)
  | .size => Session.reading fun workbench => .ok (.number workbench.pool.size)
  | .describe => Session.reading fun workbench => .ok (.text workbench.pool.describe)
  | .dump => Session.reading fun workbench => .ok (.nodes workbench.dump)

end Pool

end PooledContainers
