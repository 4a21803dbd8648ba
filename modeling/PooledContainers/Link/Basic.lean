/-
A link names a node of a pool, or no node, and carries a delete mark. A node is named by its slot,
its position in the pool. Both share one machine word, so that a single comparison of words sees
the target and the mark together: bit 0 is the mark and the bits above it hold the slot plus one,
zero standing for "no node". The file gives the words, how they are built and read, and the two
updates that a cell holding a link allows.
-/

import PooledContainers.Word

namespace PooledContainers

/-- A slot, or none, and a delete mark, packed into one word. -/
structure Link where
  /-- The word as a cell holds it. -/
  word : UInt64
deriving DecidableEq

namespace Link

/-! ### Building links -/

/-- The first slot that no link can name: its successor no longer fits above the mark. -/
def slotLimit : Nat := UInt64.size / 2 - 1

/-- The unmarked link to no node: the end of the free list, and a link never set. -/
def nil : Link := ⟨0⟩

/-- The marked link to no node, left behind in a node that has been unlinked. -/
def cleared : Link := ⟨1⟩

instance : Inhabited Link := ⟨nil⟩

/-- The unmarked link to a slot. Only slots below `slotLimit` have one; past it the word wraps. -/
def ofSlot (slot : Nat) : Link := ⟨(UInt64.ofNat slot + 1) <<< 1⟩

/-- The same target with the mark set or taken away. -/
def setMark (link : Link) (mark : Bool) : Link :=
  ⟨if mark then setLowBit link.word else clearLowBit link.word⟩

/-! ### Reading links -/

/-- The slot a link names, whatever its mark. -/
def slot? (link : Link) : Option Nat :=
  if link.word >>> 1 = 0 then none else some (link.word >>> 1 - 1).toNat

/-- Whether the delete mark is set. -/
def isMarked (link : Link) : Bool := lowBit link.word

/-- Whether the link names no node. -/
def isNil (link : Link) : Bool := link.slot?.isNone

/-- Whether the link is the unmarked link to a slot. -/
def pointsTo (link : Link) (slot : Nat) : Bool := link == ofSlot slot

/-- The text of a link: its slot and whether it is marked. -/
def describe (link : Link) : String :=
  match link.slot?, link.isMarked with
  | some slot, true => "Link(" ++ toString slot ++ ", marked)"
  | some slot, false => "Link(" ++ toString slot ++ ")"
  | none, true => "Link(cleared)"
  | none, false => "Link(nil)"

/-! ### Updating a cell that holds a link -/

/-- Replace the link of a cell if the cell still holds `expected`: whether it did, and what the
cell holds afterwards. -/
def swap (cell expected replacement : Link) : Bool × Link :=
  if cell = expected then (true, replacement) else (false, cell)

/-- Set the mark of a cell: whether this call set it, and what the cell holds afterwards. -/
def mark (cell : Link) : Bool × Link :=
  if cell.isMarked then (false, cell) else (true, cell.setMark true)

/-- Marking an unmarked cell is a swap of the link just read for its marked form. -/
theorem mark_eq_swap (cell : Link) (unmarked : cell.isMarked = false) :
    cell.mark = cell.swap cell (cell.setMark true) := by
  unfold mark swap
  rw [if_neg (by simp [unmarked]), if_pos rfl]

end Link

end PooledContainers
