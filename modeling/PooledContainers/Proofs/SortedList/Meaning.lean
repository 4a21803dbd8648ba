/-
What each step means for what a list holds. The keys that are held change with an insert, with the
whole removals and with the mark that is the first on its node; every other step leaves them as they
are, however much it tidies up.
-/

import PooledContainers.Proofs.SortedList.History

namespace PooledContainers

namespace SortedList

open Holdings Session

variable (session : Session SortedList Handle) (answer : Answer)
  (after : Session SortedList Handle)

/-- An insert refuses a misaligned payload first and then a list without a free node, whatever the
key; neither changes anything. Otherwise a key that is held keeps its payload, and no node is used
up; or the key is added. -/
structure InsertMeans (capacity : Nat) (key : Int64) (payload : UInt64) : Prop where
  misaligned : payload % alignment ≠ 0 →
    answer = .insertion (.error (.misaligned payload)) ∧ after = session
  full : payload % alignment = 0 → session.subject.available = .ok 0 →
    answer = .insertion (.error (.full capacity)) ∧ after = session
  duplicate : payload % alignment = 0 → session.subject.available ≠ .ok 0 →
    contents session.subject key ≠ none → answer = .insertion (.ok (.duplicate payload)) ∧
      contents after.subject = contents session.subject ∧
      after.subject.available = session.subject.available
  inserted : payload % alignment = 0 → session.subject.available ≠ .ok 0 →
    contents session.subject key = none → answer = .insertion (.ok .inserted) ∧
      contents after.subject = Function.update (contents session.subject) key (some payload)

/-- The removal by key answers the payload that is held under the key, if there is one, and gives up
the key. -/
def ExtractMeans (key : Int64) : Prop :=
  answer = .payload (contents session.subject key) ∧
    contents after.subject = Function.update (contents session.subject) key none

/-- The figures change nothing, and tell the capacity and how many nodes are free. -/
def FiguresMean (capacity : UInt64) : Prop :=
  after = session ∧ ∃ figures : Figures, answer = .figures figures ∧
    figures.capacity = capacity ∧ session.subject.available = .ok figures.available

/-- A mark answers yes just if the entry of the node is still live, and then its key is given up;
that key was held with the payload of the node. The sentinel behind is refused. -/
structure MarkMeans (handle : Handle) : Prop where
  sentinel : handle.node = tailSlot → answer = .refused .sentinel ∧ after = session
  live : Live session.subject.pool handle.node → answer = .flag true ∧
    contents session.subject (keyOf session.subject.pool handle.node) =
      some (session.subject.pool.bodyOf handle.node).payload ∧
    contents after.subject = Function.update (contents session.subject)
      (keyOf session.subject.pool handle.node) none
  dead : handle.node ≠ tailSlot → ¬ Live session.subject.pool handle.node →
    answer = .flag false ∧ after = session

/-- A node that is not marked is not taken off. A marked one is if the predecessor still points to
it; what is held stays the same. -/
structure UnlinkMeans (handle : Handle) : Prop where
  same : contents after.subject = contents session.subject
  sentinel : handle.node = tailSlot → answer = .refused .sentinel ∧ after = session
  unmarked : handle.node ≠ tailSlot → ¬ Marked session.subject.pool handle.node →
    answer = .refused .notMarked ∧ after = session
  marked : Marked session.subject.pool handle.node → answer =
    .flag (decide (session.subject.pool.linkOf handle.prev 0 = Link.ofSlot handle.node))

/-- A removal is completed by the handle that owns it, and answers the payload of its node; the key
was given up with the mark. -/
structure CompleteMeans (handle : Handle) : Prop where
  same : contents after.subject = contents session.subject
  owned : handle.owner = true →
    answer = .payload (some (session.subject.pool.bodyOf handle.node).payload)
  refused : handle.owner = false → answer = .refused .notOwner ∧ after = session

/-- What a step means. -/
def Meaning (capacity : UInt64) (step : Step) : Prop :=
  match step with
  | .insert key payload => InsertMeans session answer after capacity.toNat key payload
  | .extractMin => ∃ found, answer = .entry found ∧
    GivesUpLeast (contents session.subject) (contents after.subject) found
  | .extract key => ExtractMeans session answer after key
  | .entries => contents after.subject = contents session.subject ∧
    ∃ all, answer = .entries all ∧ Enumerates (contents session.subject) all
  | .figures => FiguresMean session answer after capacity
  | .describe => after = session
  | .search _ _ => contents after.subject = contents session.subject
  | .mark name => HandleMeans .refused session answer after name (MarkMeans session answer after)
  | .unlink name =>
    HandleMeans .refused session answer after name (UnlinkMeans session answer after)
  | .complete name =>
    HandleMeans .refused session answer after name (CompleteMeans session answer after)
  | .release name => HandleMeans .refused session answer after name fun _ =>
    answer = .done ∧ contents after.subject = contents session.subject

end SortedList

end PooledContainers
