/-
What some live slots hold under their keys. No two of them have the same key, so that a key has at
most one value; and a change of the live slots changes what is held under the keys of those slots
and under no others. What a container may answer about all that it holds is told by the keys and
the values alone, and not by the slots.
-/

import Mathlib.Data.List.Nodup
import Mathlib.Logic.Function.Basic

namespace PooledContainers

namespace Holdings

variable {Key Value : Type} [DecidableEq Key]

/-- What is held under a key: the value of the live slot that has the key. -/
def lookup (live : List Nat) (key : Nat → Key) (value : Nat → Value) (wanted : Key) :
    Option Value :=
  (live.find? fun slot => key slot == wanted).map value

/-- No two live slots have the same key. -/
def Distinct (live : List Nat) (key : Nat → Key) : Prop :=
  ∀ first ∈ live, ∀ second ∈ live, key first = key second → first = second

variable {live later : List Nat} {key laterKey : Nat → Key} {value laterValue : Nat → Value}

/-! ### One collection of live slots -/

/-- The live slot with a key is found by the key. -/
theorem Distinct.find?_eq_some (distinct : Distinct live key) {slot : Nat} (member : slot ∈ live) :
    (live.find? fun other => key other == key slot) = some slot := by
  cases found : live.find? fun other => key other == key slot with
  | none =>
    have differs := List.find?_eq_none.mp found slot member
    rw [beq_iff_eq] at differs
    exact absurd rfl differs
  | some other =>
    have same := List.find?_some found
    rw [beq_iff_eq] at same
    rw [distinct other (List.mem_of_find?_eq_some found) slot member same]

theorem lookup_eq_none_iff {wanted : Key} :
    lookup live key value wanted = none ↔ ∀ slot ∈ live, key slot ≠ wanted := by
  unfold lookup
  rw [Option.map_eq_none_iff, List.find?_eq_none]
  simp only [beq_iff_eq, ne_eq]

theorem lookup_of_mem (distinct : Distinct live key) {slot : Nat} (member : slot ∈ live) :
    lookup live key value (key slot) = some (value slot) := by
  unfold lookup
  rw [distinct.find?_eq_some member]
  rfl

/-- A key is held with the value of the live slot that has it. -/
theorem lookup_eq_some_iff (distinct : Distinct live key) {wanted : Key} {found : Value} :
    lookup live key value wanted = some found ↔
      ∃ slot ∈ live, key slot = wanted ∧ value slot = found := by
  constructor
  · intro holds
    unfold lookup at holds
    obtain ⟨slot, foundSlot, same⟩ := Option.map_eq_some_iff.mp holds
    have sameKey := List.find?_some foundSlot
    rw [beq_iff_eq] at sameKey
    exact ⟨slot, List.mem_of_find?_eq_some foundSlot, sameKey, same⟩
  · rintro ⟨slot, member, rfl, rfl⟩
    exact lookup_of_mem distinct member

/-- The keys of the live slots are those under which something is held. -/
theorem mem_keys_iff (value : Nat → Value) {wanted : Key} :
    wanted ∈ live.map key ↔ lookup live key value wanted ≠ none := by
  rw [Ne, lookup_eq_none_iff, List.mem_map]
  constructor
  · rintro ⟨slot, member, same⟩ absent
    exact absent slot member same
  · intro present
    by_contra nowhere
    exact present fun slot member same => nowhere ⟨slot, member, same⟩

omit [DecidableEq Key] in
theorem Distinct.nodup_keys (distinct : Distinct live key) (nodup : live.Nodup) :
    (live.map key).Nodup :=
  List.Nodup.map_on distinct nodup

/-- As many slots are live as there are keys under which something is held. -/
theorem Distinct.length_eq (distinct : Distinct live key) (nodup : live.Nodup) {keys : List Key}
    (keysNodup : keys.Nodup)
    (members : ∀ wanted, wanted ∈ keys ↔ lookup live key value wanted ≠ none) :
    live.length = keys.length := by
  have permuted : (live.map key).Perm keys := by
    refine (List.perm_ext_iff_of_nodup (distinct.nodup_keys nodup) keysNodup).mpr fun wanted => ?_
    rw [mem_keys_iff value, members]
  rw [← permuted.length_eq, List.length_map]

/-! ### Changes of the live slots -/

section Changes

variable (before : Distinct live key) (after : Distinct later laterKey)

include before after

/-- The same is held if the same slots are live, with the same keys and values. -/
theorem lookup_congr (members : ∀ slot, slot ∈ later ↔ slot ∈ live)
    (sameKey : ∀ slot ∈ live, laterKey slot = key slot)
    (sameValue : ∀ slot ∈ live, laterValue slot = value slot) :
    lookup later laterKey laterValue = lookup live key value := by
  funext wanted
  refine Option.ext fun found => ?_
  rw [lookup_eq_some_iff after, lookup_eq_some_iff before]
  refine exists_congr fun slot => ?_
  rw [members slot]
  refine and_congr_right fun member => ?_
  rw [sameKey slot member, sameValue slot member]

/-- A key is given up with the slot that has it. -/
theorem lookup_erase {gone : Nat} (goneLive : gone ∈ live)
    (members : ∀ slot, slot ∈ later ↔ slot ∈ live ∧ slot ≠ gone)
    (sameKey : ∀ slot ∈ live, slot ≠ gone → laterKey slot = key slot)
    (sameValue : ∀ slot ∈ live, slot ≠ gone → laterValue slot = value slot) :
    lookup later laterKey laterValue =
      Function.update (lookup live key value) (key gone) none := by
  funext wanted
  by_cases isGone : wanted = key gone
  · rw [isGone, Function.update_self, lookup_eq_none_iff]
    intro slot member same
    obtain ⟨wasLive, apart⟩ := (members slot).mp member
    rw [sameKey slot wasLive apart] at same
    exact apart (before slot wasLive gone goneLive same)
  · rw [Function.update_of_ne isGone]
    refine Option.ext fun found => ?_
    rw [lookup_eq_some_iff after, lookup_eq_some_iff before]
    constructor
    · rintro ⟨slot, member, hasKey, hasValue⟩
      obtain ⟨wasLive, apart⟩ := (members slot).mp member
      rw [sameKey slot wasLive apart] at hasKey
      rw [sameValue slot wasLive apart] at hasValue
      exact ⟨slot, wasLive, hasKey, hasValue⟩
    · rintro ⟨slot, wasLive, hasKey, hasValue⟩
      have apart : slot ≠ gone := fun same => isGone (by rw [← hasKey, same])
      refine ⟨slot, (members slot).mpr ⟨wasLive, apart⟩, ?_, ?_⟩
      · rw [sameKey slot wasLive apart]
        exact hasKey
      · rw [sameValue slot wasLive apart]
        exact hasValue

/-- A key is set by a slot that has it, while the others stay as they were. -/
theorem lookup_set {set : Nat} (setLive : set ∈ later)
    (members : ∀ slot, slot ≠ set → (slot ∈ later ↔ slot ∈ live))
    (sameKey : ∀ slot ∈ live, slot ≠ set → laterKey slot = key slot)
    (sameValue : ∀ slot ∈ live, slot ≠ set → laterValue slot = value slot)
    (only : set ∈ live → key set = laterKey set) :
    lookup later laterKey laterValue =
      Function.update (lookup live key value) (laterKey set) (some (laterValue set)) := by
  funext wanted
  by_cases isSet : wanted = laterKey set
  · rw [isSet, Function.update_self]
    exact lookup_of_mem after setLive
  · rw [Function.update_of_ne isSet]
    refine Option.ext fun found => ?_
    rw [lookup_eq_some_iff after, lookup_eq_some_iff before]
    constructor
    · rintro ⟨slot, member, hasKey, hasValue⟩
      have apart : slot ≠ set := fun same => isSet (by rw [← hasKey, same])
      have wasLive := (members slot apart).mp member
      rw [sameKey slot wasLive apart] at hasKey
      rw [sameValue slot wasLive apart] at hasValue
      exact ⟨slot, wasLive, hasKey, hasValue⟩
    · rintro ⟨slot, wasLive, hasKey, hasValue⟩
      have apart : slot ≠ set := fun same => isSet (by
        rw [← hasKey, same, only (same ▸ wasLive)])
      refine ⟨slot, (members slot apart).mpr wasLive, ?_, ?_⟩
      · rw [sameKey slot wasLive apart]
        exact hasKey
      · rw [sameValue slot wasLive apart]
        exact hasValue

/-- As many slots are live if something is held under the same keys. -/
theorem length_eq_of_lookup (nodup : live.Nodup) (laterNodup : later.Nodup)
    (same : ∀ wanted, lookup later laterKey laterValue wanted = none ↔
      lookup live key value wanted = none) : later.length = live.length := by
  have counted := after.length_eq laterNodup (before.nodup_keys nodup) fun wanted =>
    (mem_keys_iff value).trans (same wanted).not.symm
  rwa [List.length_map] at counted

/-- One more slot is live if something is held under one more key. -/
theorem length_succ_of_lookup (nodup : live.Nodup) (laterNodup : later.Nodup) {wanted : Key}
    {found : Value} (absent : lookup live key value wanted = none)
    (more : lookup later laterKey laterValue =
      Function.update (lookup live key value) wanted (some found)) :
    later.length = live.length + 1 := by
  have new : wanted ∉ live.map key := fun member => (mem_keys_iff value).mp member absent
  have counted := after.length_eq laterNodup
    (List.nodup_cons.mpr ⟨new, before.nodup_keys nodup⟩) fun other => by
      rw [more, List.mem_cons, mem_keys_iff value]
      by_cases same : other = wanted
      · rw [same, Function.update_self]
        exact iff_of_true (Or.inl rfl) (Option.some_ne_none found)
      · rw [Function.update_of_ne same, or_iff_right same]
  rwa [List.length_cons, List.length_map] at counted

end Changes

/-! ### What is answered about all that is held -/

section Answers

variable (held laterHeld : Key → Option Value)

/-- The removal of the smallest entry answers the least key that is held, with its value, and gives
up that key; or nothing is held, and it answers so. -/
inductive GivesUpLeast [LE Key] : Option (Key × Value) → Prop
  | none (empty : ∀ key, held key = .none) (same : laterHeld = held) : GivesUpLeast .none
  | some (key : Key) (value : Value) (holds : held key = .some value)
      (least : ∀ other, held other ≠ .none → key ≤ other)
      (removed : laterHeld = Function.update held key .none) : GivesUpLeast (.some (key, value))

/-- A list of the entries is what is held, in ascending order of the keys. -/
structure Enumerates [LT Key] (all : List (Key × Value)) : Prop where
  ascending : all.Pairwise fun first second => first.1 < second.1
  mem_iff : ∀ key value, (key, value) ∈ all ↔ held key = some value

variable {laterHeld}

/-- The live slot with the least key is given up. -/
theorem GivesUpLeast.of_live [LE Key] (distinct : Distinct live key) {least : Nat}
    (member : least ∈ live) (leastKey : ∀ slot ∈ live, key least ≤ key slot)
    (removed : laterHeld = Function.update (lookup live key value) (key least) .none) :
    GivesUpLeast (lookup live key value) laterHeld (.some (key least, value least)) := by
  refine .some _ _ (lookup_of_mem distinct member) (fun other holds => ?_) removed
  obtain ⟨slot, slotLive, rfl⟩ := List.mem_map.mp ((mem_keys_iff value).mpr holds)
  exact leastKey slot slotLive

/-- Nothing is given up if no slot is live. -/
theorem GivesUpLeast.of_none_live [LE Key] (noneLive : ∀ slot, slot ∉ live)
    (same : laterHeld = lookup live key value) :
    GivesUpLeast (lookup live key value) laterHeld .none :=
  .none (fun _ => lookup_eq_none_iff.mpr fun slot member => absurd member (noneLive slot)) same

end Answers

end Holdings

end PooledContainers
