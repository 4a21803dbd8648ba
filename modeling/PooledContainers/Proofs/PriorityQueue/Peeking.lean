/-
A look at the smallest entry against the removal that comes next. The look reads one link and shows
whatever stands there, the removal takes the first live node. They agree as long as the first node
is live; once it is committed, the removal passes it, and the look shows what the node held when it
was committed.
-/

import PooledContainers.Proofs.PriorityQueue.Runs

namespace PooledContainers

namespace PriorityQueue

open Holdings Line Operation Pool

variable {options : Options} {history : History} {session after : Session PriorityQueue Handle}
  {line free : List Nat}

/-! ### What a committed node held -/

/-- At some step of the run the deletion of a slot's node was committed, and it showed an entry
then. The node has not been reclaimed since. -/
inductive CommittedWith (options : Options) (slot : Nat) (entry : UInt64 × UInt64) :
    History → Session PriorityQueue Handle → Prop
  | commit {history : History} {session after : Session PriorityQueue Handle} {step : Step}
      {answer : Answer} (reached : Reached options history session)
      (live : Live session.subject.pool slot)
      (shows : entryOf session.subject.pool slot = entry)
      (towards : answer = .flag true → leadsBack session step = true)
      (taken : take step session = .ok (answer, after))
      (inserted : Inserted after.subject.pool slot) (deleted : Deleted after.subject.pool slot) :
    CommittedWith options slot entry (history.next session step answer) after
  | since {history : History} {session after : Session PriorityQueue Handle} {step : Step}
      {answer : Answer} (before : CommittedWith options slot entry history session)
      (towards : answer = .flag true → leadsBack session step = true)
      (taken : take step session = .ok (answer, after))
      (inserted : Inserted after.subject.pool slot) (deleted : Deleted after.subject.pool slot) :
    CommittedWith options slot entry (history.next session step answer) after

/-- A deleted node shows the entry with which it was committed. -/
theorem Reached.committedWith (reached : Reached options history session) {slot : Nat}
    (inserted : Inserted session.subject.pool slot) (deleted : Deleted session.subject.pool slot) :
    CommittedWith options slot (entryOf session.subject.pool slot) history session := by
  induction reached with
  | start made =>
    obtain ⟨free, inOrder⟩ := inOrder_start made
    exact absurd ((inOrder.consistent.inserted_iff slot).mp inserted) (by simp)
  | @step _ session _ step _ before towards taken inductionHypothesis =>
    obtain ⟨line, free, inOrder⟩ := before.inOrder
    have moved := (inOrder.take_ends step).of_ran taken
    obtain ⟨wasInserted, same⟩ := moved.remembers slot inserted deleted
    rw [same]
    by_cases wasDeleted : Deleted session.subject.pool slot
    · exact CommittedWith.since (inductionHypothesis wasInserted wasDeleted) towards taken inserted
        deleted
    · exact CommittedWith.commit before ⟨wasInserted, wasDeleted⟩ rfl towards taken inserted deleted

/-! ### The removal that comes next -/

/-- What a removal of the smallest entry answers is the entry of a live node with the least key. -/
theorem exists_live_of_extracted (inOrder : InOrder options history session line free)
    {later : UInt64 → Option UInt64} {entry : UInt64 × UInt64}
    (means : GivesUpLeast (contents session.subject) later (some entry)) :
    ∃ slot, Live session.subject.pool slot ∧ entryOf session.subject.pool slot = entry ∧
      ∀ other, Live session.subject.pool other →
        keyOf session.subject.pool slot ≤ keyOf session.subject.pool other := by
  cases means with
  | some key payload holds least _ =>
    obtain ⟨slot, live, rfl, rfl⟩ := (contents_eq_some_iff inOrder.consistent).mp holds
    refine ⟨slot, live, rfl, fun other otherLive => least _ fun none => ?_⟩
    exact absurd ((contents_of_live inOrder.consistent otherLive).symm.trans none) (by simp)

/-- A removal answers something if a node is live. -/
theorem extracted_ne_none (inOrder : InOrder options history session line free) {slot : Nat}
    (live : Live session.subject.pool slot) {later : UInt64 → Option UInt64}
    {taken : Option (UInt64 × UInt64)}
    (means : GivesUpLeast (contents session.subject) later taken) : taken ≠ none := by
  rintro rfl
  cases means with
  | none empty _ =>
    exact absurd ((contents_of_live inOrder.consistent live).symm.trans (empty _)) (by simp)

/-- How a look at the smallest entry tells what the removal that comes next answers. -/
structure Foretold (options : Options) (history : History) (session : Session PriorityQueue Handle)
    (found taken : Option (UInt64 × UInt64)) : Prop where
  nothing : found = none → taken = none
  /-- An entry that is shown is that of the first node at level 0. A live node is taken next;
  behind a deleted one only greater keys are left, and it shows what it was committed with. -/
  shown : ∀ entry, found = some entry → ∃ first,
    session.subject.pool.next? 0 headSlot = some first ∧ Inserted session.subject.pool first ∧
      entryOf session.subject.pool first = entry ∧
      (¬ Deleted session.subject.pool first → taken = some entry) ∧
      (Deleted session.subject.pool first → (∀ other, taken = some other → entry.1 < other.1) ∧
        CommittedWith options first entry history session)
  /-- As long as no deleted node is linked at level 0, both answers are the same. -/
  settled : (∀ slot, session.subject.pool.Met 0 slot → ¬ Deleted session.subject.pool slot) →
    taken = found

section First

variable {first : Nat} {later : UInt64 → Option UInt64} {taken : Option (UInt64 × UInt64)}
  (inOrder : InOrder options history session line free)
  (leads : session.subject.pool.next? 0 headSlot = some first)
  (means : GivesUpLeast (contents session.subject) later taken)

include inOrder leads means

/-- Nothing is taken if the tail stands first. -/
theorem taken_eq_none_of_tail_first (isTail : first = tailSlot) : taken = none := by
  cases taken with
  | none => rfl
  | some entry =>
    obtain ⟨slot, live, -⟩ := exists_live_of_extracted inOrder means
    exact absurd live (inOrder.not_live_of_tail_first leads isTail slot)

variable (member : first ∈ line)

include member

/-- The first node is taken if it is live. -/
theorem taken_eq_of_live_first (alive : ¬ Deleted session.subject.pool first) :
    taken = some (entryOf session.subject.pool first) := by
  have firstLive := (inOrder.consistent.live_iff first).mpr ⟨member, alive⟩
  obtain ⟨entry, rfl⟩ := Option.ne_none_iff_exists'.mp (extracted_ne_none inOrder firstLive means)
  obtain ⟨slot, live, rfl, least⟩ := exists_live_of_extracted inOrder means
  rcases inOrder.key_of_live leads member live with rfl | less
  · rfl
  · exact absurd less (UInt64.not_lt.mpr (least first firstLive))

/-- Behind a deleted first node only greater keys are taken. -/
theorem key_lt_taken_of_deleted_first (deleted : Deleted session.subject.pool first)
    (entry : UInt64 × UInt64) (isTaken : taken = some entry) :
    keyOf session.subject.pool first < entry.1 := by
  subst isTaken
  obtain ⟨slot, live, rfl, -⟩ := exists_live_of_extracted inOrder means
  refine (inOrder.key_of_live leads member live).resolve_left ?_
  rintro rfl
  exact live.2 deleted

end First

/-- In every session of a legal run a look at the smallest entry changes nothing, and what it shows
tells what a removal answers that comes next. -/
theorem peek_foretells (reached : Reached options history session) : ∃ found taken after,
    take .peek session = .ok (.entry found, session) ∧
      take .extractMin session = .ok (.entry taken, after) ∧
      Foretold options history session found taken := by
  obtain ⟨line, free, inOrder⟩ := reached.inOrder
  obtain ⟨first, leads, ends⟩ := inOrder.exists_first
  obtain ⟨_, after, extracted, -, ⟨taken, rfl, means⟩, -⟩ := inOrder.extractMin_ends
  obtain ⟨_, later, looked, rfl, same⟩ : Ends (take .peek) session fun answer later =>
      answer = .entry (if first = tailSlot then none
        else some (entryOf session.subject.pool first)) ∧ later = session :=
    Ends.bind (Session.reading_ends (inOrder.peek_eq leads ends) (Ends.pure ⟨rfl, rfl⟩))
  rw [same] at looked
  refine ⟨_, taken, after, looked, extracted, ?_⟩
  by_cases isTail : first = tailSlot
  · have nothing := taken_eq_none_of_tail_first inOrder leads means isTail
    rw [if_pos isTail]
    exact ⟨fun _ => nothing, nofun, fun _ => nothing⟩
  · have member := ends.resolve_left isTail
    have inserted := (inOrder.consistent.inserted_iff first).mpr member
    have alive := taken_eq_of_live_first inOrder leads means member
    rw [if_neg isTail]
    refine ⟨nofun, fun entry shown => ?_,
      fun settled => alive (settled first (Met.head.behind leads))⟩
    obtain rfl := Option.some.inj shown
    exact ⟨first, leads, inserted, rfl, alive, fun deleted =>
      ⟨key_lt_taken_of_deleted_first inOrder leads means member deleted,
        reached.committedWith inserted deleted⟩⟩

/-- Two entries are inserted, and the first one is committed. -/
def committedFirst : List Step :=
  [.insert 3 24 0, .insert 5 8 1, .hold "first" (.firstFrom 3), .commit "first"]

theorem exists_committedFirst : ∃ history session first,
    followFromStart smallOptions committedFirst = some (history, session) ∧
      session.subject.pool.next? 0 headSlot = some first ∧ Deleted session.subject.pool first := by
  have found : ((followFromStart smallOptions committedFirst).bind fun reached =>
      ((reached.2.subject.pool.next? 0 headSlot).filter fun first =>
        decide (Deleted reached.2.subject.pool first)).map fun first =>
          (reached, first)).isSome = true := by
    decide +kernel
  obtain ⟨⟨reached, first⟩, same⟩ := Option.isSome_iff_exists.mp found
  obtain ⟨⟨history, session⟩, followed, rest⟩ := Option.bind_eq_some_iff.mp same
  obtain ⟨slot, filtered, -⟩ := Option.map_eq_some_iff.mp rest
  obtain ⟨leads, deleted⟩ := Option.filter_eq_some_iff.mp filtered
  exact ⟨history, session, slot, followed, leads, of_decide_eq_true deleted⟩

/-- A look may show an entry whose removal is half done, and which the next removal passes. -/
theorem peek_foretells_committedFirst : ∃ history session first,
    followFromStart smallOptions committedFirst = some (history, session) ∧
      session.subject.pool.next? 0 headSlot = some first ∧ Deleted session.subject.pool first ∧
      ∃ found taken after, take .peek session = .ok (.entry found, session) ∧
        take .extractMin session = .ok (.entry taken, after) ∧
        Foretold smallOptions history session found taken := by
  obtain ⟨history, session, first, followed, leads, deleted⟩ := exists_committedFirst
  exact ⟨history, session, first, followed, leads, deleted,
    peek_foretells (Reached.of_steps followed)⟩

end PriorityQueue

end PooledContainers
