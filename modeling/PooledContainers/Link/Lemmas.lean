/-
What links read as. A link is determined by the slot and the mark that are read off it, so each way
of building one is described by these two readings. Below the limit every slot has a link of its
own; the mark and the target never disturb one another.
-/

import PooledContainers.Link.Basic

namespace PooledContainers

namespace Link

/-! ### Reading the word as a number -/

theorem slot?_eq (link : Link) :
    link.slot? =
      if link.word.toNat / 2 = 0 then none else some (link.word.toNat / 2 - 1) := by
  have above : (link.word >>> 1).toNat = link.word.toNat / 2 := by
    simp [UInt64.toNat_shiftRight, Nat.shiftRight_eq_div_pow]
  have zero_iff : link.word >>> 1 = 0 ↔ link.word.toNat / 2 = 0 := by
    rw [← UInt64.toNat_inj, above]
    rfl
  unfold slot?
  by_cases zero : link.word.toNat / 2 = 0
  · rw [if_pos (zero_iff.mpr zero), if_pos zero]
  · have one_le : (1 : UInt64) ≤ link.word >>> 1 := by
      rw [UInt64.le_iff_toNat_le, above]
      change 1 ≤ _
      omega
    rw [if_neg fun same => zero (zero_iff.mp same), if_neg zero,
      UInt64.toNat_sub_of_le _ _ one_le, above]
    rfl

/-- A link is determined by its slot and its mark. -/
theorem eq_of_slot?_of_isMarked {first second : Link} (sameSlot : first.slot? = second.slot?)
    (sameMark : first.isMarked = second.isMarked) : first = second := by
  obtain ⟨firstWord⟩ := first
  obtain ⟨secondWord⟩ := second
  rw [slot?_eq, slot?_eq] at sameSlot
  have sameLow : firstWord.toNat % 2 = 1 ↔ secondWord.toNat % 2 = 1 := by
    simpa [isMarked, lowBit_eq_decide] using sameMark
  have sameHigh : firstWord.toNat / 2 = secondWord.toNat / 2 := by
    by_cases firstZero : firstWord.toNat / 2 = 0 <;>
      by_cases secondZero : secondWord.toNat / 2 = 0 <;>
      simp [firstZero, secondZero] at sameSlot ⊢
    omega
  rw [Link.mk.injEq, ← UInt64.toNat_inj]
  omega

/-! ### Links to no node -/

@[simp] theorem slot?_nil : nil.slot? = none := by decide

@[simp] theorem isMarked_nil : nil.isMarked = false := by decide

@[simp] theorem slot?_cleared : cleared.slot? = none := by decide

@[simp] theorem isMarked_cleared : cleared.isMarked = true := by decide

/-! ### Links to a slot -/

theorem toNat_word_ofSlot {slot : Nat} (inside : slot < slotLimit) :
    (ofSlot slot).word.toNat = (slot + 1) * 2 := by
  have shifted : (ofSlot slot).word.toNat = (slot % 2 ^ 64 + 1) % 2 ^ 64 * 2 % 2 ^ 64 := by
    unfold ofSlot
    rw [UInt64.toNat_shiftLeft, UInt64.toNat_add, UInt64.toNat_ofNat', Nat.shiftLeft_eq]
    rfl
  unfold slotLimit UInt64.size at inside
  omega

theorem slot?_ofSlot {slot : Nat} (inside : slot < slotLimit) :
    (ofSlot slot).slot? = some slot := by
  rw [slot?_eq, toNat_word_ofSlot inside, if_neg (by omega)]
  congr 1
  omega

theorem isMarked_ofSlot {slot : Nat} (inside : slot < slotLimit) :
    (ofSlot slot).isMarked = false := by
  unfold isMarked
  rw [lowBit_eq_decide, toNat_word_ofSlot inside, decide_eq_false_iff_not]
  omega

/-! ### Changing the mark -/

/-- The mark leaves the bits above it alone. -/
theorem toNat_word_setMark_div (link : Link) (mark : Bool) :
    (link.setMark mark).word.toNat / 2 = link.word.toNat / 2 := by
  cases mark with
  | false =>
    change (clearLowBit link.word).toNat / 2 = _
    rw [toNat_clearLowBit]
    omega
  | true =>
    change (setLowBit link.word).toNat / 2 = _
    rw [toNat_setLowBit]
    omega

@[simp] theorem slot?_setMark (link : Link) (mark : Bool) :
    (link.setMark mark).slot? = link.slot? := by
  rw [slot?_eq, slot?_eq, toNat_word_setMark_div]

@[simp] theorem isMarked_setMark (link : Link) (mark : Bool) :
    (link.setMark mark).isMarked = mark := by
  cases mark with
  | false => exact lowBit_clearLowBit link.word
  | true => exact lowBit_setLowBit link.word

/-! ### Links told apart -/

theorem slot_lt_of_slot? {link : Link} {slot : Nat} (named : link.slot? = some slot) :
    slot < slotLimit := by
  have bound := link.word.toNat_lt
  rw [slot?_eq] at named
  unfold slotLimit UInt64.size
  split at named
  next => exact absurd named (by simp)
  next => simp only [Option.some.injEq] at named; omega

theorem eq_ofSlot_iff {link : Link} {slot : Nat} (inside : slot < slotLimit) :
    link = ofSlot slot ↔ link.slot? = some slot ∧ link.isMarked = false := by
  constructor
  · rintro rfl
    exact ⟨slot?_ofSlot inside, isMarked_ofSlot inside⟩
  · rintro ⟨named, unmarked⟩
    exact eq_of_slot?_of_isMarked (named.trans (slot?_ofSlot inside).symm)
      (unmarked.trans (isMarked_ofSlot inside).symm)

theorem eq_ofSlot {link : Link} {slot : Nat} (named : link.slot? = some slot)
    (unmarked : link.isMarked = false) : link = ofSlot slot :=
  (eq_ofSlot_iff (slot_lt_of_slot? named)).mpr ⟨named, unmarked⟩

/-- Without its mark a link to a slot is the link to that slot. -/
theorem setMark_false_of_slot? {link : Link} {slot : Nat} (named : link.slot? = some slot) :
    link.setMark false = ofSlot slot :=
  eq_ofSlot (by rw [slot?_setMark, named]) (isMarked_setMark link false)

/-- There is one unmarked and one marked link to no node. -/
theorem eq_nil_or_eq_cleared {link : Link} (nowhere : link.slot? = none) :
    link = nil ∨ link = cleared := by
  cases marked : link.isMarked with
  | false => exact Or.inl (eq_of_slot?_of_isMarked nowhere marked)
  | true => exact Or.inr (eq_of_slot?_of_isMarked nowhere marked)

theorem setMark_true_ne_nil (link : Link) : link.setMark true ≠ nil := by
  intro same
  have marked := isMarked_setMark link true
  rw [same, isMarked_nil] at marked
  exact Bool.false_ne_true marked

theorem ofSlot_ne_nil {slot : Nat} (inside : slot < slotLimit) : ofSlot slot ≠ nil := by
  intro same
  have named := slot?_ofSlot inside
  rw [same, slot?_nil] at named
  exact absurd named (by simp)

theorem cleared_ne_nil : cleared ≠ nil := by decide

end Link

end PooledContainers
