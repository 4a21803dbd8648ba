/-
What the replies of a driven container tell about it. An account is kept of the payloads accepted
under each index since its key was last absent. A container that keeps the entry of a key holds the
first of them and one that replaces it the last; both tell their replies by the account, so that
they differ only in what they hand back for a key that was there.
-/

import Mathlib.Logic.Function.Basic
import PooledContainers.Driving
import PooledContainers.Proofs.Operation

namespace PooledContainers

open Operation

/-! ### Keys of indices -/

/-- The keys of indices are ordered as the indices are. -/
class OrderedIndexKey (Key : Type) [LE Key] [IndexKey Key] : Prop where
  ofIndex_le_iff : ∀ first second : UInt32,
    (IndexKey.ofIndex first : Key) ≤ IndexKey.ofIndex second ↔ first ≤ second

instance : OrderedIndexKey Int64 where
  ofIndex_le_iff first second := by
    show Int64.ofNat first.toNat ≤ Int64.ofNat second.toNat ↔ _
    have firstSmall := first.toNat_lt
    have secondSmall := second.toNat_lt
    rw [Int64.le_iff_toInt_le, Int64.toInt_ofNat_of_lt (by omega),
      Int64.toInt_ofNat_of_lt (by omega), UInt32.le_iff_toNat_le, Int.ofNat_le]

instance : OrderedIndexKey UInt64 where
  ofIndex_le_iff first second := by
    show first.toUInt64 ≤ second.toUInt64 ↔ _
    rw [UInt64.le_iff_toNat_le, UInt32.toNat_toUInt64, UInt32.toNat_toUInt64,
      UInt32.le_iff_toNat_le]

/-- Different indices have different keys. -/
theorem ofIndex_inj {Key : Type} [LE Key] [IndexKey Key] [OrderedIndexKey Key]
    {first second : UInt32} :
    (IndexKey.ofIndex first : Key) = IndexKey.ofIndex second ↔ first = second := by
  have ordered : ∀ one other : UInt32,
      (IndexKey.ofIndex one : Key) ≤ IndexKey.ofIndex other ↔ one ≤ other :=
    OrderedIndexKey.ofIndex_le_iff
  refine ⟨fun same => ?_, congrArg _⟩
  have le : (IndexKey.ofIndex second : Key) ≤ IndexKey.ofIndex second :=
    (ordered second second).mpr (UInt32.le_refl second)
  refine UInt32.le_antisymm ((ordered first second).mp ?_) ((ordered second first).mp ?_)
  · rw [same]
    exact le
  · rw [same]
    exact le

/-! ### Accounts -/

/-- What the replies so far have told. -/
structure Account where
  /-- The payloads accepted under an index since its key was last absent, in order. -/
  accepted : UInt32 → List UInt64
  /-- Entries inserted less entries removed. -/
  count : Nat

namespace Account

/-- Nothing is held at first. -/
def start : Account := ⟨fun _ => [], 0⟩

/-- An insert was accepted. -/
def entered (account : Account) (index : UInt32) (payload : UInt64) (isNew : Bool) : Account where
  accepted := Function.update account.accepted index (account.accepted index ++ [payload])
  count := if isNew then account.count + 1 else account.count

/-- The entry of a key was removed. -/
def removed {Key : Type} [IndexKey Key] [DecidableEq Key] (account : Account) (key : Key) :
    Account where
  accepted index := if IndexKey.ofIndex index = key then [] else account.accepted index
  count := account.count - 1

/-- The account after a command and the reply to it. -/
def next {Key : Type} [IndexKey Key] [DecidableEq Key] (account : Account) :
    Command → Reply Key → Account
  | .insert index payload _, .insertion (.ok insertion) =>
    account.entered index payload insertion.isInserted
  | .extractMin, .entry (some entry) => account.removed entry.1
  | _, _ => account

/-- A command is an insert whose key is there. -/
def Meets (account : Account) : Command → Prop
  | .insert index _ _ => account.accepted index ≠ []
  | _ => False

/-- A removal depends on the index only. -/
theorem removed_ofIndex {Key : Type} [LE Key] [IndexKey Key] [OrderedIndexKey Key]
    [DecidableEq Key] (account : Account) (index : UInt32) :
    account.removed (IndexKey.ofIndex index : Key) =
      ⟨Function.update account.accepted index [], account.count - 1⟩ := by
  unfold removed
  congr 1
  funext other
  rw [Function.update_apply]
  simp only [ofIndex_inj]

end Account

/-! ### What is done about a key that is there -/

/-- Whether an entry is kept or replaced when its key is inserted again. -/
inductive DuplicatePolicy where
  /-- The entry is kept. -/
  | keep
  /-- The payload is replaced. -/
  | replace

namespace DuplicatePolicy

variable {policy : DuplicatePolicy} {accepted : List UInt64} {payload : UInt64}

/-- The payload that is held, of those accepted. -/
def pick : DuplicatePolicy → List UInt64 → Option UInt64
  | keep, accepted => accepted.head?
  | replace, accepted => accepted.getLast?

/-- What becomes of an insert whose key is there with a payload. -/
def meet (policy : DuplicatePolicy) (present payload : UInt64) : Insertion UInt64 :=
  match policy with
  | keep => .duplicate payload
  | replace => .replaced present

/-- The payload that is held after an insert whose key was there with a payload. -/
def stored (policy : DuplicatePolicy) (present payload : UInt64) : UInt64 :=
  match policy with
  | keep => present
  | replace => payload

/-- What becomes of an insert that is accepted. -/
def accept (policy : DuplicatePolicy) (accepted : List UInt64) (payload : UInt64) :
    Insertion UInt64 :=
  match policy.pick accepted with
  | none => .inserted
  | some present => policy.meet present payload

theorem pick_eq_none_iff : policy.pick accepted = none ↔ accepted = [] := by
  cases policy with
  | keep => exact List.head?_eq_none_iff
  | replace => exact List.getLast?_eq_none_iff

theorem ne_nil_of_pick (picked : policy.pick accepted = some payload) : accepted ≠ [] := by
  rintro rfl
  rw [pick_eq_none_iff.mpr rfl] at picked
  exact nomatch picked

/-- The first payload accepted is held by either policy. -/
theorem pick_append_of_none (none : policy.pick accepted = none) :
    policy.pick (accepted ++ [payload]) = some payload := by
  rw [pick_eq_none_iff.mp none]
  cases policy <;> rfl

theorem pick_append_of_some {present : UInt64} (held : policy.pick accepted = some present) :
    policy.pick (accepted ++ [payload]) = some (policy.stored present payload) := by
  cases policy with
  | keep =>
    show (accepted ++ [payload]).head? = some present
    rw [List.head?_append, show accepted.head? = some present from held]
    rfl
  | replace => exact List.getLast?_concat

theorem isInserted_meet (present : UInt64) : (policy.meet present payload).isInserted = false := by
  cases policy <;> rfl

/-- An insert adds an entry just if no payload was accepted before. -/
theorem isInserted_accept : (policy.accept accepted payload).isInserted = accepted.isEmpty := by
  unfold accept
  cases held : policy.pick accepted with
  | none =>
    rw [pick_eq_none_iff.mp held]
    rfl
  | some present =>
    rw [List.isEmpty_eq_false_iff.mpr (ne_nil_of_pick held)]
    exact isInserted_meet present

/-- The outcome of an insert: a misaligned payload is refused first, and then a container that is
full. -/
def outcome (policy : DuplicatePolicy) (capacity : UInt64) (account : Account) (index : UInt32)
    (payload : UInt64) : InsertOutcome :=
  if payload % alignment ≠ 0 then .error (.misaligned payload)
  else if account.count = capacity.toNat then .error (.full capacity.toNat)
  else .ok (policy.accept (account.accepted index) payload)

end DuplicatePolicy

/-! ### Replies by the account -/

/-- The reply to a command is told by the account, given what is done about a key that is there. -/
inductive Told {Key : Type} [IndexKey Key] (policy : DuplicatePolicy) (capacity : UInt64)
    (account : Account) : Command → Reply Key → Prop
  | insert (index : UInt32) (payload : UInt64) (coins : Nat) : Told policy capacity account
      (.insert index payload coins) (.insertion (policy.outcome capacity account index payload))
  | drained (empty : ∀ index, account.accepted index = []) :
      Told policy capacity account .extractMin (.entry none)
  | extracted (index : UInt32) (payload : UInt64)
      (present : policy.pick (account.accepted index) = some payload)
      (least : ∀ other, account.accepted other ≠ [] → index ≤ other) :
      Told policy capacity account .extractMin (.entry (some (IndexKey.ofIndex index, payload)))
  | length : Told policy capacity account .length (.length account.count)
  | isEmpty : Told policy capacity account .isEmpty (.isEmpty (account.count == 0))
  | capacity : Told policy capacity account .capacity (.capacity capacity)
  | available : Told policy capacity account .available
      (.available (capacity.toNat - account.count))

/-- A container holds what the account and the policy say, and its balance is the count. -/
structure Kept {Key : Type} [IndexKey Key] (policy : DuplicatePolicy) (account : Account)
    (contents : Key → Option UInt64) (balance : Int) : Prop where
  held : ∀ index, contents (IndexKey.ofIndex index) = policy.pick (account.accepted index)
  only : ∀ key, contents key ≠ none → ∃ index, IndexKey.ofIndex index = key
  balance : balance = account.count

/-- What an insert under an index comes to, and what it does to the contents and the balance. -/
inductive Inserts {Key : Type} [IndexKey Key] [DecidableEq Key] (policy : DuplicatePolicy)
    (capacity : UInt64) (account : Account) (index : UInt32) (payload : UInt64)
    (contents : Key → Option UInt64) (balance : Int) :
    InsertOutcome → (Key → Option UInt64) → Int → Prop
  | misaligned (misaligned : payload % alignment ≠ 0) :
      Inserts policy capacity account index payload contents balance
        (.error (.misaligned payload)) contents balance
  | full (aligned : payload % alignment = 0) (full : account.count = capacity.toNat) :
      Inserts policy capacity account index payload contents balance
        (.error (.full capacity.toNat)) contents balance
  | present (aligned : payload % alignment = 0) (room : account.count ≠ capacity.toNat)
      {present : UInt64} (held : contents (IndexKey.ofIndex index) = some present) :
      Inserts policy capacity account index payload contents balance
        (.ok (policy.meet present payload))
        (Function.update contents (IndexKey.ofIndex index) (some (policy.stored present payload)))
        balance
  | absent (aligned : payload % alignment = 0) (room : account.count ≠ capacity.toNat)
      (held : contents (IndexKey.ofIndex index) = none) :
      Inserts policy capacity account index payload contents balance (.ok .inserted)
        (Function.update contents (IndexKey.ofIndex index) (some payload)) (balance + 1)

namespace Kept

variable {Key : Type} [LE Key] [IndexKey Key] [OrderedIndexKey Key]
  {policy : DuplicatePolicy} {account : Account} {contents later : Key → Option UInt64}
  {balance laterBalance : Int} {capacity : UInt64} {index : UInt32} {payload : UInt64}

/-- A payload was accepted under an index. -/
theorem entered [DecidableEq Key] (kept : Kept policy account contents balance) {isNew : Bool}
    {stored : UInt64} (picked : policy.pick (account.accepted index ++ [payload]) = some stored)
    (counted : laterBalance = balance + if isNew then 1 else 0) :
    Kept policy (account.entered index payload isNew)
      (Function.update contents (IndexKey.ofIndex index) (some stored)) laterBalance where
  held other := by
    show _ = policy.pick (Function.update account.accepted index _ other)
    by_cases same : other = index
    · rw [same, Function.update_self, Function.update_self, picked]
    · rw [Function.update_of_ne same, Function.update_of_ne fun keys => same (ofIndex_inj.mp keys),
        kept.held]
  only key present := by
    by_cases same : key = IndexKey.ofIndex index
    · exact ⟨index, same.symm⟩
    · rw [Function.update_of_ne same] at present
      exact kept.only key present
  balance := by
    rw [counted, kept.balance]
    unfold Account.entered
    cases isNew <;> simp

/-- The outcome of an insert is told by the account, which is kept up. -/
theorem inserts [DecidableEq Key] (kept : Kept policy account contents balance)
    {outcome : InsertOutcome} (inserts : Inserts policy capacity account index payload contents
      balance outcome later laterBalance) (coins : Nat) :
    outcome = policy.outcome capacity account index payload ∧
      Kept policy
        (account.next (.insert index payload coins) (.insertion outcome : Reply Key))
        later laterBalance := by
  have picked := kept.held index
  unfold DuplicatePolicy.outcome
  cases inserts with
  | misaligned misaligned => exact ⟨(if_pos misaligned).symm, kept⟩
  | full aligned full =>
    rw [if_neg (not_not.mpr aligned), if_pos full]
    exact ⟨rfl, kept⟩
  | present aligned room held =>
    rw [held] at picked
    rw [if_neg (not_not.mpr aligned), if_neg room, DuplicatePolicy.accept, ← picked]
    refine ⟨rfl, kept.entered (DuplicatePolicy.pick_append_of_some picked.symm) ?_⟩
    rw [DuplicatePolicy.isInserted_meet]
    exact (Int.add_zero balance).symm
  | absent aligned room held =>
    rw [held] at picked
    rw [if_neg (not_not.mpr aligned), if_neg room, DuplicatePolicy.accept, ← picked]
    exact ⟨rfl, kept.entered (DuplicatePolicy.pick_append_of_none picked.symm) rfl⟩

/-- The entry of an index was removed. -/
theorem removed [DecidableEq Key] (kept : Kept policy account contents balance) (index : UInt32)
    (nonneg : 0 ≤ laterBalance) (counted : laterBalance = balance + -1) :
    Kept policy (account.removed (IndexKey.ofIndex index : Key))
      (Function.update contents (IndexKey.ofIndex index) none) laterBalance where
  held other := by
    rw [Account.removed_ofIndex]
    show _ = policy.pick (Function.update account.accepted index [] other)
    by_cases same : other = index
    · rw [same, Function.update_self, Function.update_self,
        DuplicatePolicy.pick_eq_none_iff.mpr rfl]
    · rw [Function.update_of_ne same, Function.update_of_ne fun keys => same (ofIndex_inj.mp keys),
        kept.held]
  only key present := by
    by_cases same : key = IndexKey.ofIndex index
    · exact ⟨index, same.symm⟩
    · rw [Function.update_of_ne same] at present
      exact kept.only key present
  balance := by
    have before := kept.balance
    show _ = ((account.count - 1 : Nat) : Int)
    omega

omit [LE Key] [OrderedIndexKey Key] in
/-- Nothing was accepted under any index of a container that holds nothing. -/
theorem accepted_eq_nil (kept : Kept policy account contents balance)
    (empty : ∀ key, contents key = none) (index : UInt32) : account.accepted index = [] :=
  DuplicatePolicy.pick_eq_none_iff.mp ((kept.held index).symm.trans (empty _))

/-- The least key that is held is that of the least index under which something was accepted. -/
theorem told_extracted (kept : Kept policy account contents balance) (capacity : UInt64)
    {key : Key} (present : contents key = some payload)
    (least : ∀ other, contents other ≠ none → key ≤ other) : ∃ index,
      IndexKey.ofIndex index = key ∧
        Told policy capacity account .extractMin (.entry (some (key, payload))) := by
  obtain ⟨index, rfl⟩ := kept.only key (by rw [present]; exact Option.some_ne_none payload)
  refine ⟨index, rfl, Told.extracted index payload ((kept.held index).symm.trans present)
    fun other accepted => ?_⟩
  refine (OrderedIndexKey.ofIndex_le_iff index other).mp (least _ ?_)
  rw [kept.held]
  exact DuplicatePolicy.pick_eq_none_iff.not.mpr accepted

end Kept

/-- A container that is driven: the replies to commands that only look are told by the figures of
the container, those to the others are given. -/
theorem drive_ends {Container : Type} [OrderedContainer Container]
    [IndexKey (OrderedContainer.Key Container)] [DecidableEq (OrderedContainer.Key Container)]
    {policy : DuplicatePolicy} {capacity : UInt64} {account : Account} {container : Container}
    (driven : Account → Container → Prop) (before : driven account container)
    (sameCapacity : OrderedContainer.capacity container = capacity)
    (length : OrderedContainer.length container = account.count)
    (available : OrderedContainer.available container = .ok (capacity.toNat - account.count))
    (inserts : ∀ index payload coins,
      Ends (OrderedContainer.insert (IndexKey.ofIndex index) payload coins) container
        fun outcome after => outcome = policy.outcome capacity account index payload ∧
          driven (account.next (.insert index payload coins)
            (.insertion outcome : Reply (OrderedContainer.Key Container))) after)
    (extracts : Ends OrderedContainer.extractMin container fun found after =>
      Told policy capacity account .extractMin (.entry found) ∧
        driven (account.next .extractMin (.entry found)) after) (command : Command) :
    Ends (drive command) container fun reply after =>
      Told policy capacity account command reply ∧ driven (account.next command reply) after := by
  cases command with
  | insert index payload coins =>
    refine Ends.bind ((inserts index payload coins).imp fun outcome after done => Ends.pure ?_)
    exact ⟨done.1 ▸ Told.insert index payload coins, done.2⟩
  | extractMin => exact Ends.bind (extracts.imp fun found after done => Ends.pure done)
  | length =>
    unfold drive
    refine Ends.reading rfl (And.intro ?_ before)
    rw [length]
    exact Told.length
  | isEmpty =>
    unfold drive
    refine Ends.reading rfl (And.intro ?_ before)
    unfold OrderedContainer.isEmpty
    rw [length]
    exact Told.isEmpty
  | capacity =>
    unfold drive
    refine Ends.reading rfl (And.intro ?_ before)
    rw [sameCapacity]
    exact Told.capacity
  | available =>
    have shown : (OrderedContainer.available container).map Reply.available =
        .ok (.available (capacity.toNat - account.count) :
          Reply (OrderedContainer.Key Container)) := by
      rw [available]
      rfl
    exact Ends.reading shown ⟨Told.available, before⟩

/-! ### Two containers side by side -/

/-- The replies of a container that keeps entries and of one that replaces them agree: on every
error, on whether an insert added an entry, on the figures, and on the index of the entry removed.
Its payload is the first accepted from the one and the last accepted from the other. -/
inductive Agree (account : Account) : Command → Reply Int64 → Reply UInt64 → Prop
  | insertion {index : UInt32} {payload : UInt64} {coins : Nat} {outcome other : InsertOutcome}
      (same : outcome.map Insertion.isInserted = other.map Insertion.isInserted) :
      Agree account (.insert index payload coins) (.insertion outcome) (.insertion other)
  | drained : Agree account .extractMin (.entry none) (.entry none)
  | extracted {index : UInt32} {first last : UInt64}
      (isFirst : (account.accepted index).head? = some first)
      (isLast : (account.accepted index).getLast? = some last) :
      Agree account .extractMin (.entry (some (IndexKey.ofIndex index, first)))
        (.entry (some (IndexKey.ofIndex index, last)))
  | length (value : Nat) : Agree account .length (.length value) (.length value)
  | isEmpty (value : Bool) : Agree account .isEmpty (.isEmpty value) (.isEmpty value)
  | capacity (value : UInt64) : Agree account .capacity (.capacity value) (.capacity value)
  | available (value : Nat) : Agree account .available (.available value) (.available value)

/-- Two replies are the same but for the kind of keys. -/
def Identical (reply : Reply Int64) (other : Reply UInt64) : Prop :=
  ∃ common : Reply UInt32,
    reply = common.map IndexKey.ofIndex ∧ other = common.map IndexKey.ofIndex

/-- Something holds at every command of a run, with the account at that point. -/
def Throughout (holds : Account → Command → Reply Int64 → Reply UInt64 → Prop) :
    Account → List Command → List (Reply Int64) → List (Reply UInt64) → Prop
  | _, [], [], [] => True
  | account, command :: commands, reply :: replies, other :: others =>
    holds account command reply other ∧
      Throughout holds (account.next command reply) commands replies others
  | _, _, _, _ => False

section Pairs

variable {capacity : UInt64} {account : Account} {command : Command} {reply : Reply Int64}
  {other : Reply UInt64}

/-- Replies that are told by the same account agree. -/
theorem Told.agree (told : Told .keep capacity account command reply)
    (toldOther : Told .replace capacity account command other) :
    Agree account command reply other := by
  cases told with
  | insert index payload coins =>
    cases toldOther
    refine Agree.insertion ?_
    unfold DuplicatePolicy.outcome
    split
    · rfl
    · split
      · rfl
      · show Except.ok _ = Except.ok _
        rw [DuplicatePolicy.isInserted_accept, DuplicatePolicy.isInserted_accept]
  | drained empty =>
    cases toldOther with
    | drained => exact Agree.drained
    | extracted index payload present =>
      exact absurd (empty index) (DuplicatePolicy.ne_nil_of_pick present)
  | extracted index payload present least =>
    have accepted := DuplicatePolicy.ne_nil_of_pick present
    cases toldOther with
    | drained empty => exact absurd (empty index) accepted
    | extracted otherIndex last isLast otherLeast =>
      have acceptedOther := DuplicatePolicy.ne_nil_of_pick isLast
      obtain rfl := UInt32.le_antisymm (least otherIndex acceptedOther) (otherLeast index accepted)
      exact Agree.extracted present isLast
  | length => cases toldOther; exact Agree.length _
  | isEmpty => cases toldOther; exact Agree.isEmpty _
  | capacity => cases toldOther; exact Agree.capacity _
  | available => cases toldOther; exact Agree.available _

/-- Replies that agree lead to the same account. -/
theorem Agree.next_eq (agree : Agree account command reply other) :
    account.next command reply = account.next command other := by
  cases agree with
  | @insertion index payload coins outcome other same =>
    cases outcome with
    | error error =>
      cases other with
      | error => rfl
      | ok => exact absurd same (by simp [Except.map])
    | ok insertion =>
      cases other with
      | error => exact absurd same (by simp [Except.map])
      | ok otherInsertion =>
        show account.entered index payload _ = account.entered index payload _
        rw [Except.ok.inj same]
  | extracted =>
    show account.removed _ = account.removed _
    rw [Account.removed_ofIndex, Account.removed_ofIndex]
  | drained | length | isEmpty | capacity | available => rfl

/-- As long as no payload was accepted for a key that was there, the replies are identical. -/
theorem Told.identical (told : Told .keep capacity account command reply)
    (toldOther : Told .replace capacity account command other)
    (single : ∀ index, (account.accepted index).length ≤ 1) (fresh : ¬ account.Meets command) :
    Identical reply other := by
  have agree := told.agree toldOther
  cases agree with
  | @insertion index payload coins =>
    have none : account.accepted index = [] := not_not.mp fresh
    cases told
    cases toldOther
    refine ⟨.insertion (DuplicatePolicy.keep.outcome capacity account index payload), rfl, ?_⟩
    unfold DuplicatePolicy.outcome
    rw [none]
    rfl
  | @extracted index first last isFirst isLast =>
    have short := single index
    obtain ⟨payload, only⟩ : ∃ payload, account.accepted index = [payload] := by
      refine List.length_eq_one_iff.mp (Nat.le_antisymm short (Nat.pos_of_ne_zero fun none => ?_))
      rw [List.length_eq_zero_iff.mp none] at isFirst
      exact absurd isFirst (by simp)
    rw [only] at isFirst isLast
    obtain rfl := Option.some.inj isFirst
    obtain rfl := Option.some.inj isLast
    exact ⟨.entry (some (index, payload)), rfl, rfl⟩
  | drained => exact ⟨.entry none, rfl, rfl⟩
  | length value => exact ⟨.length value, rfl, rfl⟩
  | isEmpty value => exact ⟨.isEmpty value, rfl, rfl⟩
  | capacity value => exact ⟨.capacity value, rfl, rfl⟩
  | available value => exact ⟨.available value, rfl, rfl⟩

/-- No second payload is accepted if no insert meets its key. -/
theorem Account.single_next {Key : Type} [IndexKey Key] [DecidableEq Key]
    (single : ∀ index, (account.accepted index).length ≤ 1) (fresh : ¬ account.Meets command)
    (reply : Reply Key) (index : UInt32) :
    ((account.next command reply).accepted index).length ≤ 1 := by
  unfold next
  split
  next changed payload coins insertion =>
    have none : account.accepted changed = [] := not_not.mp fresh
    show (Function.update account.accepted changed _ index).length ≤ 1
    by_cases same : index = changed
    · rw [same, Function.update_self, none]
      exact Nat.le_refl 1
    · rw [Function.update_of_ne same]
      exact single index
  next =>
    show (if _ then _ else _ : List UInt64).length ≤ 1
    split
    · exact Nat.zero_le 1
    · exact single index
  next => exact single index

end Pairs

end PooledContainers
