/-
The low bit of a machine word, used as a flag beside what the other bits hold. The file gives the
flag, setting it and clearing it, and says what each does to the word as a number, from which all
that follows about words that carry a flag.
-/

namespace PooledContainers

/-! ### The flag -/

/-- Whether the low bit is set. -/
def lowBit (word : UInt64) : Bool := word &&& 1 != 0

/-- The word with the low bit set. -/
def setLowBit (word : UInt64) : UInt64 := word ||| 1

/-- The word with the low bit cleared. -/
def clearLowBit (word : UInt64) : UInt64 := word &&& ~~~1

/-! ### As numbers -/

theorem lowBit_eq_decide (word : UInt64) : lowBit word = decide (word.toNat % 2 = 1) := by
  have low : (word &&& 1).toNat = word.toNat % 2 := by
    rw [UInt64.toNat_and]
    exact Nat.and_one_is_mod _
  unfold lowBit
  rw [bne, Bool.eq_iff_iff]
  simp [← UInt64.toNat_inj, low]

theorem toNat_setLowBit (word : UInt64) :
    (setLowBit word).toNat = word.toNat / 2 * 2 + 1 := by
  unfold setLowBit
  rw [UInt64.toNat_or]
  apply Nat.eq_of_testBit_eq
  intro position
  cases position with
  | zero => simp [Nat.testBit_zero]
  | succ position =>
    have half : (word.toNat / 2 * 2 + 1) / 2 = word.toNat / 2 := by omega
    rw [Nat.testBit_or, Nat.testBit_succ, Nat.testBit_succ, Nat.testBit_succ, half]
    simp

theorem toNat_clearLowBit (word : UInt64) :
    (clearLowBit word).toNat = word.toNat / 2 * 2 := by
  have bound := word.toNat_lt
  unfold clearLowBit
  rw [UInt64.toNat_and, UInt64.toNat_not]
  apply Nat.eq_of_testBit_eq
  intro position
  cases position with
  | zero => simp [Nat.testBit_zero]
  | succ position =>
    have half : word.toNat / 2 * 2 / 2 = word.toNat / 2 := by omega
    have ones : (UInt64.size - 1 - (1 : UInt64).toNat) / 2 = 2 ^ 63 - 1 := by decide
    rw [Nat.testBit_and, Nat.testBit_succ, Nat.testBit_succ, Nat.testBit_succ, half, ones,
      Nat.testBit_two_pow_sub_one]
    by_cases inside : position < 63
    · simp [inside]
    · have beyond : (word.toNat / 2).testBit position = false := by
        apply Nat.testBit_lt_two_pow
        calc word.toNat / 2 < 2 ^ 63 := by omega
          _ ≤ 2 ^ position := Nat.pow_le_pow_right (by omega) (by omega)
      simp [beyond]

/-! ### Setting and clearing -/

@[simp] theorem lowBit_setLowBit (word : UInt64) : lowBit (setLowBit word) = true := by
  rw [lowBit_eq_decide, toNat_setLowBit, decide_eq_true_eq]
  omega

@[simp] theorem lowBit_clearLowBit (word : UInt64) : lowBit (clearLowBit word) = false := by
  rw [lowBit_eq_decide, toNat_clearLowBit, decide_eq_false_iff_not]
  omega

@[simp] theorem clearLowBit_setLowBit (word : UInt64) :
    clearLowBit (setLowBit word) = clearLowBit word := by
  rw [← UInt64.toNat_inj, toNat_clearLowBit, toNat_setLowBit, toNat_clearLowBit]
  omega

/-- Clearing a flag that is not set changes nothing. -/
theorem clearLowBit_of_lowBit_eq_false {word : UInt64} (clear : lowBit word = false) :
    clearLowBit word = word := by
  rw [lowBit_eq_decide, decide_eq_false_iff_not] at clear
  rw [← UInt64.toNat_inj, toNat_clearLowBit]
  omega

end PooledContainers
