/-
What each step means for what a queue holds. The keys that are held change with an insert, with the
removal of the smallest entry and with a commit that is the first on its node; every other step
leaves them as they are, however much it tidies up.
-/

import PooledContainers.Proofs.PriorityQueue.History

namespace PooledContainers

namespace PriorityQueue

open Holdings Session

variable (session : Session PriorityQueue Handle) (answer : Answer)
  (after : Session PriorityQueue Handle)

/-- An insert refuses a misaligned payload first and then a queue without a free node, whatever the
key; neither changes anything. Otherwise it replaces the payload of a key that is held, or adds the
key. -/
structure InsertMeans (capacity : Nat) (key payload : UInt64) : Prop where
  misaligned : payload % alignment ≠ 0 →
    answer = .insertion (.error (.misaligned payload)) ∧ after = session
  full : payload % alignment = 0 → session.subject.available = .ok 0 →
    answer = .insertion (.error (.full capacity)) ∧ after = session
  replaced : payload % alignment = 0 → session.subject.available ≠ .ok 0 →
    ∀ previous, contents session.subject key = some previous →
      answer = .insertion (.ok (.replaced previous)) ∧
        contents after.subject = Function.update (contents session.subject) key (some payload)
  inserted : payload % alignment = 0 → session.subject.available ≠ .ok 0 →
    contents session.subject key = none → answer = .insertion (.ok .inserted) ∧
      contents after.subject = Function.update (contents session.subject) key (some payload)

/-- A look at the smallest entry changes nothing. It answers an entry unless nothing is held, and
no key that is held is smaller than the one that it answers; if that one is held itself, it is
answered with its payload. -/
structure PeekMeans : Prop where
  same : after = session
  answered : ∃ found, answer = .entry found ∧
    (found = none → ∀ key, contents session.subject key = none) ∧
    ∀ key payload, found = some (key, payload) →
      (∀ other, contents session.subject other ≠ none → key ≤ other) ∧
      ∀ present, contents session.subject key = some present → payload = present

/-- The length is the number of the keys that are held. -/
def FiguresMean (options : Options) : Prop :=
  after = session ∧ ∃ (figures : Figures) (keys : List UInt64),
    answer = .figures figures ∧ keys.Nodup ∧
    (∀ key, key ∈ keys ↔ contents session.subject key ≠ none) ∧ figures.length = keys.length ∧
    figures.isEmpty = keys.isEmpty ∧ figures.capacity = options.capacity ∧
    session.subject.available = .ok figures.available ∧ figures.maxHeight = options.height

/-- A commit answers yes just if the node is still live, and then its key is given up; that key was
held with the payload of the node. -/
structure CommitMeans (handle : Handle) : Prop where
  sentinel : isSentinel handle.node = true → answer = .refused .sentinel ∧ after = session
  live : Live session.subject.pool handle.node → answer = .flag true ∧
    contents session.subject (keyOf session.subject.pool handle.node) =
      some (session.subject.pool.bodyOf handle.node).datum.payload ∧
    contents after.subject = Function.update (contents session.subject)
      (keyOf session.subject.pool handle.node) none
  deleted : isSentinel handle.node = false → Deleted session.subject.pool handle.node →
    answer = .flag false ∧ contents after.subject = contents session.subject

/-- A removal is completed by the handle that owns it, and answers the payload of its node; the key
was given up with the commit. -/
structure CompleteMeans (handle : Handle) : Prop where
  same : contents after.subject = contents session.subject
  owned : handle.owner = true →
    answer = .payload (session.subject.pool.bodyOf handle.node).datum.payload
  refused : handle.owner = false → answer = .refused .notOwner ∧ after = session

/-- What a step means. -/
def Meaning (options : Options) (step : Step) : Prop :=
  match step with
  | .insert key payload _ => InsertMeans session answer after options.capacity.toNat key payload
  | .extractMin => ∃ found, answer = .entry found ∧
    GivesUpLeast (contents session.subject) (contents after.subject) found
  | .peek => PeekMeans session answer after
  | .entries => contents after.subject = contents session.subject ∧
    ∃ all, answer = .entries all ∧ Enumerates (contents session.subject) all
  | .figures => FiguresMean session answer after options
  | .commit name =>
    HandleMeans .refused session answer after name (CommitMeans session answer after)
  | .complete name =>
    HandleMeans .refused session answer after name (CompleteMeans session answer after)
  | .describe | .draw _ | .levels | .inspect _ => after = session
  | .hold _ _ | .release _ | .hint _ _ | .markLinks _ _ | .bypass _ _ | .help _ _
  | .successor _ _ | .seek _ _ _ => contents after.subject = contents session.subject

end PriorityQueue

end PooledContainers
