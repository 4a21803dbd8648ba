/-
Words are a faithful code for links. What is read off a word is a slot that a link can name, or
none, and a mark; every such pair is read off just one word, which is the one that is built for it.
The mark is bit 0 of the word and the target is all that is above it, so that neither shows in the
other, and comparing whole words compares both. The bound on slots is exact: the first slot past it
gets the word that names none.
-/

import Mathlib.Algebra.Group.Nat.Defs
import Mathlib.Data.Set.Function
import PooledContainers.Link.Lemmas
import PooledContainers.Pool.Actions

namespace PooledContainers

namespace Link

/-! ### Reading and building -/

/-- What is read off a link: the slot that it names, or none, and its mark. -/
def reading (link : Link) : Option Nat × Bool := (link.slot?, link.isMarked)

/-- What can be read off links: a slot that a link can name, or none, and a mark. -/
def readings : Set (Option Nat × Bool) := {read | ∀ slot ∈ read.1, slot < slotLimit}

/-- The link that is built for what is to be read off it. -/
def ofReading : Option Nat × Bool → Link
  | (some slot, mark) => (ofSlot slot).setMark mark
  | (none, false) => nil
  | (none, true) => cleared

theorem reading_mem (link : Link) : link.reading ∈ readings := fun _ named =>
  slot_lt_of_slot? named

theorem reading_ofReading {read : Option Nat × Bool} (possible : read ∈ readings) :
    (ofReading read).reading = read := by
  obtain ⟨_ | slot, mark⟩ := read
  · cases mark with
    | false => exact Prod.ext slot?_nil isMarked_nil
    | true => exact Prod.ext slot?_cleared isMarked_cleared
  · have inside : slot < slotLimit := possible slot rfl
    refine Prod.ext ?_ (isMarked_setMark _ mark)
    exact (slot?_setMark _ mark).trans (slot?_ofSlot inside)

/-- Built again from what is read off it, a link is the same. -/
theorem ofReading_reading (link : Link) : ofReading link.reading = link := by
  have same := reading_ofReading link.reading_mem
  exact eq_of_slot?_of_isMarked (congrArg Prod.fst same) (congrArg Prod.snd same)

/-- Reading and building are inverse to one another. -/
theorem invOn_reading :
    Set.InvOn (fun read => (ofReading read).word) (fun word => (Link.mk word).reading)
      Set.univ readings :=
  ⟨fun word _ => congrArg Link.word (ofReading_reading ⟨word⟩),
    fun _ possible => reading_ofReading possible⟩

/-! ### The mark -/

theorem isNil_iff {link : Link} : link.isNil = true ↔ link.slot? = none :=
  Option.isNone_iff_eq_none

/-- The last mark that is set is the one that stays. -/
theorem setMark_setMark (link : Link) (mark later : Bool) :
    (link.setMark mark).setMark later = link.setMark later := by
  refine eq_of_slot?_of_isMarked ?_ ?_
  · rw [slot?_setMark, slot?_setMark, slot?_setMark]
  · rw [isMarked_setMark, isMarked_setMark]

/-- The mark is bit 0. -/
theorem testBit_setMark (link : Link) (mark : Bool) (position : Nat) :
    (link.setMark mark).word.toNat.testBit position =
      if position = 0 then mark else link.word.toNat.testBit position := by
  cases position with
  | zero =>
    rw [if_pos rfl, Nat.testBit_zero, ← lowBit_eq_decide]
    exact isMarked_setMark link mark
  | succ position =>
    rw [if_neg (Nat.succ_ne_zero position), Nat.testBit_succ, Nat.testBit_succ,
      toNat_word_setMark_div]

/-! ### Pointing to a slot -/

theorem pointsTo_iff {link : Link} {slot : Nat} (inside : slot < slotLimit) :
    link.pointsTo slot = true ↔ link.isMarked = false ∧ link.slot? = some slot := by
  unfold pointsTo
  rw [beq_iff_eq, eq_ofSlot_iff inside, and_comm]

/-- A link points somewhere unless it is marked or names no slot. -/
theorem astray_iff {link : Link} :
    link.isMarked = true ∨ link.isNil = true ↔
      ∀ slot : Fin slotLimit, link.pointsTo slot = false := by
  constructor
  · intro astray slot
    rw [Bool.eq_false_iff, ne_eq, pointsTo_iff slot.isLt]
    rintro ⟨unmarked, named⟩
    rcases astray with marked | nowhere
    · exact Bool.false_ne_true (unmarked.symm.trans marked)
    · rw [isNil_iff, named] at nowhere
      exact absurd nowhere (by simp)
  · intro nowhere
    cases named : link.slot? with
    | none => exact Or.inr (isNil_iff.mpr named)
    | some slot =>
      have inside := slot_lt_of_slot? named
      have missed := nowhere ⟨slot, inside⟩
      rw [Bool.eq_false_iff, ne_eq, pointsTo_iff inside] at missed
      exact Or.inl (Bool.of_not_eq_false fun unmarked => missed ⟨unmarked, named⟩)

/-! ### The bound on slots -/

/-- The slots below the limit, and no others, are read off the links that are made to them. -/
theorem slot?_ofSlot_iff {slot : Nat} : (ofSlot slot).slot? = some slot ↔ slot < slotLimit :=
  ⟨slot_lt_of_slot?, slot?_ofSlot⟩

/-! ### The code -/

/-- How a word goes together with what is read off it as a link. -/
structure Coded (link : Link) : Prop where
  /-- Built again from what is read off it, the link is the same word. -/
  rebuilt : (ofReading link.reading).word = link.word
  /-- Setting the mark never changes the target. -/
  target : ∀ mark, (link.setMark mark).slot? = link.slot?
  /-- The mark is as it was set last; setting it once more the same way changes nothing. -/
  marked : ∀ mark, (link.setMark mark).isMarked = mark
  last : ∀ mark later, (link.setMark mark).setMark later = link.setMark later
  /-- Bit 0 is all that changes. -/
  bits : ∀ mark position, (link.setMark mark).word.toNat.testBit position =
    if position = 0 then mark else link.word.toNat.testBit position
  /-- A link points to a slot just if it is unmarked and names it, -/
  points : ∀ slot : Fin slotLimit, link.pointsTo slot = true ↔
    link.isMarked = false ∧ link.slot? = some slot.val
  /-- and so it points nowhere just if it is marked or names no slot. -/
  astray : link.isMarked = true ∨ link.isNil = true ↔
    ∀ slot : Fin slotLimit, link.pointsTo slot = false

theorem coded (link : Link) : Coded link where
  rebuilt := congrArg Link.word (ofReading_reading link)
  target := slot?_setMark link
  marked := isMarked_setMark link
  last := setMark_setMark link
  bits := testBit_setMark link
  points slot := pointsTo_iff slot.isLt
  astray := astray_iff

/-- Reading a word as a link is one to one onto the pairs of a slot below 2 ^ 63 - 1, or none, and a
mark, and building links is its inverse. A link is made to just those slots that are read off it
again; the first of the others would get the nil word. -/
theorem words_faithful :
    Set.BijOn (fun word => (Link.mk word).reading) Set.univ readings ∧
      Set.InvOn (fun read => (ofReading read).word) (fun word => (Link.mk word).reading)
        Set.univ readings ∧
      (∀ link, Coded link) ∧
      (∀ {levels : Nat} {Body : Type} (pool : Pool levels Body) (slot : Nat),
        Pool.linkTo slot pool =
          if (ofSlot slot).slot? = some slot then .ok (ofSlot slot, pool)
          else .error .slotWithoutLink) ∧
      slotLimit = 2 ^ 63 - 1 ∧ ofSlot (2 ^ 63 - 1) = nil := by
  refine ⟨?bijOn, invOn_reading, coded, fun pool slot => ?linkTo, by decide, by decide⟩
  case bijOn =>
    exact invOn_reading.bijOn (fun word _ => reading_mem ⟨word⟩) fun _ _ => Set.mem_univ _
  case linkTo =>
    unfold Pool.linkTo
    by_cases inside : slot < slotLimit
    · rw [if_pos inside, if_pos (slot?_ofSlot_iff.mpr inside)]
      rfl
    · rw [if_neg inside, if_neg fun named => inside (slot?_ofSlot_iff.mp named)]
      rfl

end Link

end PooledContainers
