/-
What limits the walks of a queue does not matter unless it cuts them short. The limit stands in two
places, for the steps of a loop and for the layers of help; every walk does the same under a higher
limit, as long as the lower one lets it.
-/

import PooledContainers.PriorityQueue.Session
import PooledContainers.Proofs.Limits

namespace PooledContainers

namespace PriorityQueue

open Operation Pool

/-! ### Walks against a helper -/

namespace Helping

/-- One helper does what the other one does, unless it is cut short, and loops may go no further. -/
structure CutsShort (short long : Helping) : Prop where
  help : ∀ node level, Operation.CutsShort (short.help node level) (long.help node level)
  bound : short.bound ≤ long.bound

namespace CutsShort

variable {short long : Helping} (cuts : short.CutsShort long)

include cuts

theorem stepBack (node level : Nat) :
    Operation.CutsShort (short.stepBack node level) (long.stepBack node level) :=
  .andThen _ fun _ => .bind (cuts.help node level) fun _ => .refl _

theorem followOrStepBack (level : Nat) {tries longTries : Nat} (fewer : tries ≤ longTries)
    (node : Nat) : Operation.CutsShort (short.followOrStepBack level tries node)
      (long.followOrStepBack level longTries node) := by
  induction tries generalizing longTries node with
  | zero => exact .stop _
  | succ tries inductionHypothesis =>
    obtain ⟨longTries, rfl⟩ := Nat.exists_eq_add_of_le' (Nat.le_trans (Nat.succ_pos tries) fewer)
    refine .andThen _ fun link => .andThen _ fun next => ?_
    cases next with
    | some next => exact .refl _
    | none =>
      exact .bind (cuts.stepBack node level) fun prev =>
        inductionHypothesis (Nat.le_of_succ_le_succ fewer) prev

theorem successor (node level : Nat) :
    Operation.CutsShort (short.successor node level) (long.successor node level) := by
  refine .andThen _ fun deleted => .ite ?_ (cuts.followOrStepBack level cuts.bound node)
  exact .bind (cuts.stepBack node level) fun prev => cuts.followOrStepBack level cuts.bound prev

theorem seekFrom (level : Nat) (key : UInt64) {steps longSteps : Nat} (fewer : steps ≤ longSteps)
    (prev next : Nat) : Operation.CutsShort (short.seekFrom level key steps prev next)
      (long.seekFrom level key longSteps prev next) := by
  induction steps generalizing longSteps prev next with
  | zero => exact .stop _
  | succ steps inductionHypothesis =>
    obtain ⟨longSteps, rfl⟩ := Nat.exists_eq_add_of_le' (Nat.le_trans (Nat.succ_pos steps) fewer)
    refine .andThen _ fun before => .ite (.andThen _ fun _ => ?_) (.refl _)
    exact .bind (cuts.successor next level) fun position =>
      inductionHypothesis (Nat.le_of_succ_le_succ fewer) position.1 position.2

theorem seek (prev level : Nat) (key : UInt64) :
    Operation.CutsShort (short.seek prev level key) (long.seek prev level key) :=
  .bind (cuts.successor prev level) fun position =>
    cuts.seekFrom level key cuts.bound position.1 position.2

theorem descend (bottom : Nat) (key : UInt64) (count prev : Nat) :
    Operation.CutsShort (short.descend bottom key count prev)
      (long.descend bottom key count prev) := by
  induction count generalizing prev with
  | zero => exact .refl _
  | succ count inductionHypothesis =>
    exact .bind (cuts.seek prev (bottom + count) key) fun position =>
      .andThen _ fun _ => inductionHypothesis position.1

theorem seekFromHead (maxHeight : Nat) (key : UInt64) :
    Operation.CutsShort (short.seekFromHead maxHeight key) (long.seekFromHead maxHeight key) :=
  .andThen _ fun _ => .bind (cuts.descend 1 key (maxHeight - 1) headSlot) fun prev =>
    cuts.seek prev 0 key

theorem firstFrom (maxHeight : Nat) (key : UInt64) :
    Operation.CutsShort (short.firstFrom maxHeight key) (long.firstFrom maxHeight key) :=
  .bind (cuts.seekFromHead maxHeight key) fun _ => .refl _

theorem passEqual (node level : Nat) (key : UInt64) {steps longSteps : Nat}
    (fewer : steps ≤ longSteps) (cursor next : Nat) :
    Operation.CutsShort (short.passEqual node level key steps cursor next)
      (long.passEqual node level key longSteps cursor next) := by
  induction steps generalizing longSteps cursor next with
  | zero => exact .stop _
  | succ steps inductionHypothesis =>
    obtain ⟨longSteps, rfl⟩ := Nat.exists_eq_add_of_le' (Nat.le_trans (Nat.succ_pos steps) fewer)
    refine .andThen _ fun equal => .ite (.andThen _ fun _ => ?_) (.refl _)
    exact .bind (cuts.successor next level) fun position =>
      inductionHypothesis (Nat.le_of_succ_le_succ fewer) position.1 position.2

theorem locateBehind (node prev next level : Nat) (key : UInt64) :
    Operation.CutsShort (short.locateBehind node prev next level key)
      (long.locateBehind node prev next level key) :=
  .andThen _ fun _ => .bind (cuts.successor prev level) fun position => .andThen _ fun _ =>
    .bind (cuts.passEqual node level key cuts.bound position.1 position.2) fun _ => .refl _

theorem locate (node prev level : Nat) :
    Operation.CutsShort (short.locate node prev level) (long.locate node prev level) := by
  refine .andThen _ fun own => .bind (cuts.seek prev level own.key) fun position => ?_
  refine .ite (.refl _) (.andThen _ fun equal => .ite ?_ (.refl _))
  exact cuts.locateBehind node position.1 position.2 level own.key

theorem bypass (node prev level : Nat) :
    Operation.CutsShort (short.bypass node prev level) (long.bypass node prev level) := by
  refine .andThen _ fun own => .ite (.refl _) (.andThen _ fun link => .ite (.refl _) ?_)
  exact .bind (cuts.locate node prev level) fun _ => .refl _

theorem bypassLevels (node count prev : Nat) :
    Operation.CutsShort (short.bypassLevels node count prev)
      (long.bypassLevels node count prev) := by
  induction count generalizing prev with
  | zero => exact .refl _
  | succ count inductionHypothesis =>
    exact .bind (cuts.bypass node prev count) inductionHypothesis

theorem predecessorFromHead (maxHeight node level : Nat) :
    Operation.CutsShort (short.predecessorFromHead maxHeight node level)
      (long.predecessorFromHead maxHeight node level) :=
  .andThen _ fun own => .andThen _ fun _ =>
    cuts.descend level own.key (maxHeight - level) headSlot

theorem predecessor (maxHeight node level : Nat) :
    Operation.CutsShort (short.predecessor maxHeight node level)
      (long.predecessor maxHeight node level) := by
  have fromHead := cuts.predecessorFromHead maxHeight node level
  refine .andThen _ fun found => ?_
  cases found.back? with
  | some hint => exact .andThen _ fun entry => .ite (.refl _) fromHead
  | none => exact fromHead

theorem finishAt (maxHeight node level : Nat) :
    Operation.CutsShort (short.finishAt maxHeight node level)
      (long.finishAt maxHeight node level) := by
  refine .andThen _ fun own => .ite (.refl _) (.andThen _ fun _ => ?_)
  refine .bind (cuts.predecessor maxHeight node level) fun prev => ?_
  exact .bind (cuts.bypass node prev level) fun _ => .refl _

end CutsShort

end Helping

/-! ### The helper -/

/-- Fewer layers of help, with shorter loops, do the same as long as they suffice. -/
theorem helpLayers_cutsShort (maxHeight : Nat) {bound longBound : Nat} (lower : bound ≤ longBound)
    {layers longLayers : Nat} (fewer : layers ≤ longLayers) (node level : Nat) :
    CutsShort (helpLayers maxHeight bound layers node level)
      (helpLayers maxHeight longBound longLayers node level) := by
  induction layers generalizing longLayers node level with
  | zero => exact .stop _
  | succ layers inductionHypothesis =>
    obtain ⟨longLayers, rfl⟩ := Nat.exists_eq_add_of_le' (Nat.le_trans (Nat.succ_pos layers) fewer)
    have inner : Helping.CutsShort ⟨helpLayers maxHeight bound layers, bound⟩
        ⟨helpLayers maxHeight longBound longLayers, longBound⟩ :=
      ⟨inductionHypothesis (Nat.le_of_succ_le_succ fewer), lower⟩
    exact inner.finishAt maxHeight node level

theorem helpingWithin_cutsShort (maxHeight : Nat) {limit higher : Nat} (le : limit ≤ higher) :
    (helpingWithin limit maxHeight).CutsShort (helpingWithin higher maxHeight) :=
  ⟨helpLayers_cutsShort maxHeight le le, le⟩

/-! ### Operations -/

namespace Helping.CutsShort

variable {short long : Helping} (cuts : short.CutsShort long)

include cuts

theorem descendKeeping (key : UInt64) (height count prev : Nat) (kept : List Nat) :
    Operation.CutsShort (PriorityQueue.descendKeeping short key height count prev kept)
      (PriorityQueue.descendKeeping long key height count prev kept) := by
  induction count generalizing prev kept with
  | zero => exact .refl _
  | succ count inductionHypothesis =>
    refine .bind (cuts.seek prev (count + 1) key) fun position => .andThen _ fun _ => ?_
    exact .ite (.andThen _ fun _ => inductionHypothesis _ _) (inductionHypothesis _ _)

theorem linkAbove (node prev level : Nat) (key : UInt64) :
    Operation.CutsShort (PriorityQueue.linkAbove short node prev level key)
      (PriorityQueue.linkAbove long node prev level key) :=
  .bind (cuts.seek prev level key) fun _ => .refl _

theorem linkUpwards (node : Nat) (key : UInt64) (level count : Nat) (kept : List Nat) :
    Operation.CutsShort (PriorityQueue.linkUpwards short node key level count kept)
      (PriorityQueue.linkUpwards long node key level count kept) := by
  induction count generalizing level kept with
  | zero => exact .refl _
  | succ count inductionHypothesis =>
    refine .andThen _ fun _ => ?_
    cases kept with
    | nil => exact .refl _
    | cons prev kept =>
      exact .bind (cuts.linkAbove node prev level key) fun _ => inductionHypothesis (level + 1) kept

theorem linkFresh (node prev next : Nat) (kept : List Nat) (key : UInt64) (height : Nat) :
    Operation.CutsShort (PriorityQueue.linkFresh short node prev next kept key height)
      (PriorityQueue.linkFresh long node prev next kept key height) := by
  refine .andThen _ fun _ => .andThen _ fun _ => .andThen _ fun _ => .andThen _ fun _ => ?_
  exact .bind (cuts.linkUpwards node key 1 (height - 1) kept) fun _ => .refl _

theorem placeFresh (maxHeight node : Nat) (key word : UInt64) (height : Nat) :
    Operation.CutsShort (PriorityQueue.placeFresh short maxHeight node key word height)
      (PriorityQueue.placeFresh long maxHeight node key word height) := by
  refine .andThen _ fun _ => .andThen _ fun _ => .andThen _ fun _ => ?_
  refine .bind (cuts.descendKeeping key height (maxHeight - 1) headSlot []) fun descended => ?_
  refine .bind (cuts.seek descended.1 0 key) fun position => .andThen _ fun previous => ?_
  cases previous with
  | some previous => exact .refl _
  | none =>
    exact .bind (cuts.linkFresh node position.1 position.2 descended.2 key height) fun _ => .refl _

theorem commitFirst {steps longSteps : Nat} (fewer : steps ≤ longSteps) (prev : Nat) :
    Operation.CutsShort (PriorityQueue.commitFirst short steps prev)
      (PriorityQueue.commitFirst long longSteps prev) := by
  induction steps generalizing longSteps prev with
  | zero => exact .stop _
  | succ steps inductionHypothesis =>
    obtain ⟨longSteps, rfl⟩ := Nat.exists_eq_add_of_le' (Nat.le_trans (Nat.succ_pos steps) fewer)
    refine .bind (cuts.successor prev 0) fun position => .ite (.refl _) (.andThen _ fun link => ?_)
    refine .ite (.andThen _ fun committed => .ite (.refl _) ?_) (.refl _)
    exact .bind (cuts.help position.2 0) fun earlier => .andThen _ fun _ =>
      inductionHypothesis (Nat.le_of_succ_le_succ fewer) earlier

theorem commitMin :
    Operation.CutsShort (PriorityQueue.commitMin short) (PriorityQueue.commitMin long) :=
  .andThen _ fun _ => cuts.commitFirst cuts.bound headSlot

theorem completeRemoval (node : Nat) :
    Operation.CutsShort (PriorityQueue.completeRemoval short node)
      (PriorityQueue.completeRemoval long node) :=
  .andThen _ fun entry => .andThen _ fun _ => .andThen _ fun _ =>
    .bind (cuts.bypassLevels node entry.height headSlot) fun _ => .refl _

theorem nextOf (maxHeight node : Nat) :
    Operation.CutsShort (PriorityQueue.nextOf short maxHeight node)
      (PriorityQueue.nextOf long maxHeight node) := by
  refine .andThen _ fun link => .andThen _ fun next => ?_
  cases next with
  | some next => exact .refl _
  | none =>
    refine .andThen _ fun entry => ?_
    cases keyAfter? entry.key with
    | none => exact .refl _
    | some key => exact .bind (cuts.firstFrom maxHeight key) fun _ => .refl _

theorem entriesFrom (maxHeight : Nat) {steps longSteps : Nat} (fewer : steps ≤ longSteps)
    (node : Nat) : Operation.CutsShort (PriorityQueue.entriesFrom short maxHeight steps node)
      (PriorityQueue.entriesFrom long maxHeight longSteps node) := by
  induction steps generalizing longSteps node with
  | zero => exact .stop _
  | succ steps inductionHypothesis =>
    obtain ⟨longSteps, rfl⟩ := Nat.exists_eq_add_of_le' (Nat.le_trans (Nat.succ_pos steps) fewer)
    refine .bind (cuts.nextOf maxHeight node) fun next => ?_
    cases next with
    | none => exact .refl _
    | some next =>
      refine .ite (.refl _) (.andThen _ fun entry => .andThen _ fun _ => ?_)
      exact .bind (inductionHypothesis (Nat.le_of_succ_le_succ fewer) next) fun _ => .refl _

theorem allEntries (maxHeight : Nat) :
    Operation.CutsShort (PriorityQueue.allEntries short maxHeight)
      (PriorityQueue.allEntries long maxHeight) :=
  .andThen _ fun _ => cuts.entriesFrom maxHeight cuts.bound headSlot

theorem holdTarget (maxHeight : Nat) (target : Target) :
    Operation.CutsShort (PriorityQueue.holdTarget short maxHeight target)
      (PriorityQueue.holdTarget long maxHeight target) := by
  cases target with
  | head => exact .refl _
  | firstFrom key => exact cuts.firstFrom maxHeight key

end Helping.CutsShort

/-! ### Steps -/

section Steps

open Session

variable {limit higher : Nat → Nat} (le : ∀ size, limit size ≤ higher size)

include le

theorem onLevels_cutsShort {Outcome : Type} {walk : Helping → Nat → Walk Outcome}
    (each : ∀ {short long : Helping}, short.CutsShort long → ∀ maxHeight,
      CutsShort (walk short maxHeight) (walk long maxHeight)) :
    CutsShort (onLevels limit walk) (onLevels higher walk) :=
  .onStart fun queue => .within (each (helpingWithin_cutsShort _ (le queue.pool.size)) _)

theorem insertWithin_cutsShort (key payload : UInt64) (coins : Nat) :
    CutsShort (insertWithin limit key payload coins) (insertWithin higher key payload coins) := by
  unfold insertWithin
  cases alignedWord payload with
  | error error => exact .refl _
  | ok word =>
    refine .andThen _ fun allocated => ?_
    cases allocated with
    | error error => exact .refl _
    | ok node =>
      refine .bind (onLevels_cutsShort le fun cuts maxHeight => ?_) fun _ => .refl _
      exact cuts.placeFresh maxHeight node key word (drawHeight maxHeight coins)

theorem extractMinWithin_cutsShort :
    CutsShort (extractMinWithin limit) (extractMinWithin higher) := by
  refine .bind (onLevels_cutsShort le fun cuts _ => cuts.commitMin) fun first => ?_
  cases first with
  | none => exact .refl _
  | some first =>
    refine .andThen _ fun _ => .andThen _ fun entry => ?_
    exact .bind (onLevels_cutsShort le fun cuts _ => cuts.completeRemoval first) fun _ => .refl _

theorem takeAt_cutsShort (name : String) (level : Nat) (demand : Demand)
    {stage : Helping → Nat → Walk Answer}
    (each : ∀ {short long : Helping}, short.CutsShort long → ∀ node,
      CutsShort (stage short node) (stage long node)) :
    CutsShort (takeAt limit name level demand stage) (takeAt higher name level demand stage) := by
  refine .andThen _ fun handle => ?_
  cases handle with
  | none => exact .refl _
  | some handle =>
    refine .andThen _ fun refusal => ?_
    cases refusal with
    | some reason => exact .refl _
    | none => exact .within (onLevels_cutsShort le fun cuts _ => each cuts handle.node)

/-- A step under a lower limit does the same as under a higher one, unless it is cut short. -/
theorem takeWithin_cutsShort (step : Step) :
    CutsShort (takeWithin limit step) (takeWithin higher step) := by
  cases step with
  | insert key payload coins =>
    exact .bind (.within (insertWithin_cutsShort le key payload coins)) fun _ => .refl _
  | extractMin => exact .bind (.within (extractMinWithin_cutsShort le)) fun _ => .refl _
  | entries =>
    refine .bind (.within (onLevels_cutsShort le fun cuts maxHeight => ?_)) fun _ => .refl _
    exact cuts.allEntries maxHeight
  | hold name target =>
    refine .bind (.within (onLevels_cutsShort le fun cuts maxHeight => ?_)) fun _ => .refl _
    exact cuts.holdTarget maxHeight target
  | bypass name level =>
    unfold takeWithin
    refine takeAt_cutsShort le name level .marked fun cuts node => .andThen _ fun _ => ?_
    exact .bind (cuts.bypass node headSlot level) fun _ => .refl _
  | help name level =>
    unfold takeWithin
    refine takeAt_cutsShort le name level .deleted fun cuts node => .andThen _ fun _ => ?_
    exact .bind (cuts.help node level) fun _ => .refl _
  | successor name level =>
    unfold takeWithin
    refine takeAt_cutsShort le name level .reached fun cuts node => .andThen _ fun _ => ?_
    exact .bind (cuts.successor node level) fun _ => .refl _
  | seek name level key =>
    unfold takeWithin
    refine takeAt_cutsShort le name level .reached fun cuts node => .andThen _ fun _ => ?_
    exact .bind (cuts.seek node level key) fun _ => .refl _
  | markLinks name level =>
    unfold takeWithin
    exact takeAt_cutsShort le name level .deleted fun _ _ => .refl _
  | complete name =>
    refine .andThen _ fun handle => ?_
    cases handle with
    | none => exact .refl _
    | some handle =>
      refine .ite (.andThen _ fun entry => .andThen _ fun _ => ?_) (.refl _)
      refine .bind (.within (onLevels_cutsShort le fun cuts _ => ?_)) fun _ => .refl _
      exact cuts.completeRemoval handle.node
  | peek => exact .refl _
  | figures => exact .refl _
  | describe => exact .refl _
  | draw coins => exact .refl _
  | levels => exact .refl _
  | release name => exact .refl _
  | inspect name => exact .refl _
  | commit name => exact .refl _
  | hint name predecessor => exact .refl _

end Steps

end PriorityQueue

end PooledContainers
