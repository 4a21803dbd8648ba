/-
What is stored beside a key. A container keeps a payload as one machine word whose low bit it needs
for itself, so a payload must turn into a word that is a multiple of the pointer alignment, and
must be had back from that word. Words that are not aligned are refused before anything changes.
-/

import PooledContainers.Error
import PooledContainers.Word

namespace PooledContainers

/-- The alignment of a pointer in bytes. -/
def alignment : UInt64 := 8

/-- A word as it is, unless it is misaligned. -/
def alignedWord (word : UInt64) : Except ContainerError UInt64 :=
  if word % alignment = 0 then .ok word else .error (.misaligned word)

/-- The low bit of an aligned word is free. -/
theorem lowBit_of_alignedWord {word kept : UInt64} (aligned : alignedWord word = .ok kept) :
    kept = word ∧ lowBit word = false := by
  unfold alignedWord at aligned
  split at aligned
  next multiple =>
    have remainder : word.toNat % 8 = 0 := by
      have same := congrArg UInt64.toNat multiple
      rwa [UInt64.toNat_mod] at same
    refine ⟨(Except.ok.inj aligned).symm, ?_⟩
    rw [lowBit_eq_decide, decide_eq_false_iff_not]
    omega
  next => exact absurd aligned (by simp)

theorem alignedWord_eq_ok {payload word : UInt64} (aligned : alignedWord payload = .ok word) :
    payload % alignment = 0 ∧ word = payload ∧ lowBit payload = false := by
  obtain ⟨rfl, clear⟩ := lowBit_of_alignedWord aligned
  refine ⟨?_, rfl, clear⟩
  unfold alignedWord at aligned
  split at aligned
  next multiple => exact multiple
  next => exact absurd aligned (by simp)

theorem alignedWord_eq_error {payload : UInt64} {error : ContainerError}
    (misaligned : alignedWord payload = .error error) :
    payload % alignment ≠ 0 ∧ error = .misaligned payload := by
  unfold alignedWord at misaligned
  split at misaligned
  next => exact absurd misaligned (by simp)
  next notMultiple => exact ⟨notMultiple, (Except.error.inj misaligned).symm⟩

/-- Values that can be kept as a word and had back from it. -/
class Payload (Value : Type) where
  /-- The word that stands for a value. -/
  toWord : Value → UInt64
  /-- The value that a word stands for. -/
  ofWord : UInt64 → Value
  /-- A value is had back from its word. -/
  ofWord_toWord : ∀ value, ofWord (toWord value) = value

/-- A word that is no address at all is its own payload. -/
instance : Payload UInt64 where
  toWord word := word
  ofWord word := word
  ofWord_toWord _ := rfl

/-! ### References -/

/-- The address of an aligned value. -/
structure Reference where
  /-- The address. -/
  address : UInt64
  /-- The value starts at a multiple of the alignment. -/
  aligned : address % alignment = 0

namespace Reference

/-- The reference with an address; a misaligned one is taken to be zero. -/
def ofAddress (address : UInt64) : Reference :=
  if aligned : address % alignment = 0 then ⟨address, aligned⟩ else ⟨0, rfl⟩

end Reference

instance : Payload Reference where
  toWord reference := reference.address
  ofWord := Reference.ofAddress
  ofWord_toWord reference := by
    unfold Reference.ofAddress
    rw [dif_pos reference.aligned]

/-- Texts that references can name, each laid out at an aligned address of its own. -/
structure Referents where
  /-- The texts in the order in which they were laid out. -/
  texts : Array String

namespace Referents

/-- Nothing laid out yet. -/
def empty : Referents := ⟨#[]⟩

/-- The reference to the text at a position. Address zero is never used. -/
def referenceAt (position : Nat) : Reference :=
  Reference.ofAddress ((UInt64.ofNat position + 1) * alignment)

/-- A reference to a text, which is laid out first if it is not there yet. -/
def refer (referents : Referents) (text : String) : Reference × Referents :=
  match referents.texts.idxOf? text with
  | some position => (referenceAt position, referents)
  | none => (referenceAt referents.texts.size, ⟨referents.texts.push text⟩)

/-- The text that a reference names. -/
def text? (referents : Referents) (reference : Reference) : Option String :=
  referents.texts[(reference.address / alignment - 1).toNat]?

end Referents

/-! ### Raw pointers -/

/-- A raw pointer to a byte of a buffer of 512 bytes that starts aligned, given by its offset. -/
structure BytePointer where
  /-- How far into the buffer the byte stands. -/
  offset : Fin 512

instance : Payload BytePointer where
  toWord pointer := UInt64.ofNat pointer.offset
  ofWord word := ⟨Fin.ofNat 512 word.toNat⟩
  ofWord_toWord pointer := by
    obtain ⟨offset, inside⟩ := pointer
    simp [Fin.ofNat, Nat.mod_eq_of_lt inside]

end PooledContainers
