/-
A pool is a fixed array of nodes. Every node carries a counter that holds twice the number of
counts on it, plus one while the node is claimed: an even counter belongs to a live node, an odd
one to a node that sits on the free list. The free list runs through the nodes' links at level 0,
starting from the free head. A node has one or more links, perhaps a counted reference back to
another node, and a body that the pool never looks at.
-/

import PooledContainers.Error
import PooledContainers.Link.Basic
import PooledContainers.Operation

namespace PooledContainers

/-! ### Nodes -/

/-- A node with a link for each of its levels. -/
structure Node (levels : Nat) (Body : Type) where
  /-- Twice the counts held on the node, plus one while it is claimed. It fits a word as long as
  fewer than 2 ^ 62 counts are held on the node. -/
  counter : Nat
  /-- Forward links. The link at level 0 threads the free list while the node is claimed. -/
  links : Vector Link levels
  /-- The counted reference back to another node, for kinds of node that have one. -/
  back : Option Link
  /-- What the owner of the pool keeps in the node. -/
  body : Body

namespace Node

variable {levels : Nat} {Body : Type}

/-- The links of a free node: `next` at level 0 and nil above. -/
def freeLinks (levels : Nat) (next : Link) : Vector Link levels :=
  (Vector.replicate levels Link.nil).setIfInBounds 0 next

/-- The node with its link at one level replaced. -/
def setLink (node : Node levels Body) (level : Nat) (link : Link) : Node levels Body :=
  { node with links := node.links.setIfInBounds level link }

/-- The node with its reference back replaced. Kinds of node without one stay without it. -/
def setBack (node : Node levels Body) (link : Link) : Node levels Body :=
  { node with back := node.back.map fun _ => link }

/-- The node with another counter. -/
def setCounter (node : Node levels Body) (counter : Nat) : Node levels Body :=
  { node with counter }

/-- The slot that the node's reference back names. -/
def back? (node : Node levels Body) : Option Nat := node.back.bind Link.slot?

/-- The node as it goes onto the free list in front of `next`: claimed, without a reference back,
its links nil above level 0. -/
def freed (node : Node levels Body) (next : Link) : Node levels Body :=
  { node.setBack Link.nil with counter := 1, links := freeLinks levels next }

end Node

/-! ### Kinds of node -/

/-- A kind of node, by what is to be known before any is made: for how many of them there is
storage. That depends on the size of a node and on the memory at hand. -/
class NodeKind (levels : Nat) (Body : Type) where
  /-- Storage for this many nodes or more is never granted. -/
  limit : Nat
  /-- Every slot that is granted can be named by a link. -/
  limit_le : limit ≤ Link.slotLimit

namespace NodeKind

/-- The number of words, of 8 bytes each, that addresses of 57 bits tell apart. -/
def addressableWords : Nat := UInt64.size / 128 / 8

/-- A kind of node that takes up so many words, where memory is short of nothing but addresses. -/
abbrev ofWords {levels : Nat} {Body : Type} (words : Nat) : NodeKind levels Body where
  limit := addressableWords / words
  limit_le := Nat.le_trans (Nat.div_le_self addressableWords words) (by decide)

/-- Nodes without a body take up a word for each link, and two for the counter and the reference
back. -/
instance (levels : Nat) : NodeKind levels Unit := ofWords (levels + 2)

end NodeKind

/-! ### Pools -/

/-- A fixed set of nodes and where their free list starts. -/
structure Pool (levels : Nat) (Body : Type) where
  /-- The nodes, by slot. -/
  nodes : Array (Node levels Body)
  /-- The link to the first free node. -/
  freeHead : Link
  /-- The nodes are few enough for links to name all of them. -/
  linkable : nodes.size < Link.slotLimit

namespace Pool

variable {levels : Nat} {Body : Type}

/-- The number of nodes, free ones included. -/
def size (pool : Pool levels Body) : Nat := pool.nodes.size

/-- The node of a slot, if there is such a slot. -/
def node? (pool : Pool levels Body) (slot : Nat) : Option (Node levels Body) :=
  pool.nodes[slot]?

/-- The link of a slot at a level, if there are such a slot and such a level. -/
def link? (pool : Pool levels Body) (slot level : Nat) : Option Link :=
  (pool.node? slot).bind fun node => node.links[level]?

/-- The pool with one node changed. -/
def modify (pool : Pool levels Body) (slot : Nat)
    (change : Node levels Body → Node levels Body) : Pool levels Body :=
  { pool with
    nodes := pool.nodes.modify slot change
    linkable := by simpa using pool.linkable }

/-! ### Making a pool -/

/-- A node that is held by one count. -/
def heldNode (back : Option Link) (body : Body) : Node levels Body :=
  ⟨2, Vector.replicate levels Link.nil, back, body⟩

/-- A node that is free, in front of `next`. -/
def freeNode (back : Option Link) (body : Body) (next : Link) : Node levels Body :=
  ⟨1, Node.freeLinks levels next, back, body⟩

/-- The link from a slot to the one after it, in a pool of a size. -/
def linkAfter (size slot : Nat) : Link :=
  if slot + 1 < size then Link.ofSlot (slot + 1) else Link.nil

/-- A pool whose first `held` nodes are held by one count each, while the others are threaded
onto the free list in slot order. -/
def threaded (held size : Nat) (bound : size < Link.slotLimit) (back : Option Link)
    (body : Body) : Pool levels Body where
  nodes := Array.ofFn fun slot : Fin size =>
    if slot.val < held then heldNode back body
    else freeNode back body (linkAfter size slot.val)
  freeHead := if held < size then Link.ofSlot held else Link.nil
  linkable := by simpa using bound

/-- Reserve storage for nodes of one kind, the first `held` of them held and the others free. -/
def reserve [NodeKind levels Body] (held size : Nat) (back : Option Link) (body : Body) :
    Except PoolError (Pool levels Body) :=
  if granted : size < NodeKind.limit levels Body then
    .ok (threaded held size (Nat.lt_of_lt_of_le granted NodeKind.limit_le) back body)
  else .error (.unreservable size)

/-! ### Looking at a pool -/

/-- The number of slots met from a link along level 0, marks ignored, up to a link that names
none, but never more than `limit`. -/
def chainLength (pool : Pool levels Body) : (limit : Nat) → Link → Except Fault Nat
  | 0, _ => .ok 0
  | limit + 1, link =>
    match link.slot? with
    | none => .ok 0
    | some slot =>
      match pool.link? slot 0 with
      | none => .error .outOfRange
      | some next => (pool.chainLength limit next).map (· + 1)

/-- The number of nodes on the free list, counted no further than the size of the pool. -/
def available (pool : Pool levels Body) : Except Fault Nat :=
  pool.chainLength pool.size pool.freeHead

/-- The text of a pool: its size and its free head. -/
def describe (pool : Pool levels Body) : String :=
  "NodePool \x7b capacity: " ++ toString pool.size ++ ", free_head: " ++
    pool.freeHead.describe ++ " \x7d"

/-! ### Counting along level 0 -/

theorem chainLength_of_none {pool : Pool levels Body} {link : Link} (nowhere : link.slot? = none)
    (limit : Nat) : pool.chainLength limit link = .ok 0 := by
  cases limit with
  | zero => rfl
  | succ limit =>
    unfold chainLength
    rw [nowhere]

theorem chainLength_of_slot? {pool : Pool levels Body} {limit slot : Nat} {link next : Link}
    (named : link.slot? = some slot) (there : pool.link? slot 0 = some next) :
    pool.chainLength (limit + 1) link = (pool.chainLength limit next).map (· + 1) := by
  rw [chainLength, named]
  simp only [there]

/-! ### What a change does to each slot -/

@[simp] theorem size_modify (pool : Pool levels Body) (slot : Nat)
    (change : Node levels Body → Node levels Body) :
    (pool.modify slot change).size = pool.size := by
  simp [size, modify]

@[simp] theorem freeHead_modify (pool : Pool levels Body) (slot : Nat)
    (change : Node levels Body → Node levels Body) :
    (pool.modify slot change).freeHead = pool.freeHead := rfl

theorem node?_modify_self (pool : Pool levels Body) (slot : Nat)
    (change : Node levels Body → Node levels Body) :
    (pool.modify slot change).node? slot = (pool.node? slot).map change := by
  simp [node?, modify, Array.getElem?_modify]

theorem node?_modify_other (pool : Pool levels Body) (slot other : Nat)
    (change : Node levels Body → Node levels Body) (different : other ≠ slot) :
    (pool.modify slot change).node? other = pool.node? other := by
  simp [node?, modify, Array.getElem?_modify, Ne.symm different]

end Pool

end PooledContainers
