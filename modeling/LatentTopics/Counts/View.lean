import Std.Data.HashMap
import LatentTopics.Counts.Slice
import LatentTopics.Fault

/-! What a sampler sees of the model: counts that show its own changes at once, and a way to move
one token from a topic to another. -/
namespace LatentTopics

/-- One token of a word moves from topic `old` to topic `new`. -/
structure Change where
  word : Nat
  old : Nat
  new : Nat
  deriving DecidableEq, Repr, Inhabited

class TopicCounts (M : Type) where
  wordCount : M → Nat → Nat → Int
  total : M → Nat → Int
  commit : Change → Update M Unit

/-! The view of a single worker. It changes a slice and the
totals themselves, and can keep a record of its changes. -/

structure InPlace where
  slice : Slice
  summary : Summary
  recording : Bool
  events : Array Change
  deriving DecidableEq, Repr, Inhabited

namespace InPlace

def start (slice : Slice) (summary : Summary) (recording : Bool) : InPlace :=
  ⟨slice, summary, recording, #[]⟩

def addToRow (word topic : Nat) (delta : Int) : Update InPlace Unit
  | ⟨slice, summary, recording, events⟩ =>
      match Slice.add word topic delta slice with
      | .ok _ slice => .ok () ⟨slice, summary, recording, events⟩
      | .error fault slice => .error fault ⟨slice, summary, recording, events⟩

def addToTotal (topic : Nat) (delta : Int) : Update InPlace Unit
  | ⟨slice, summary, recording, events⟩ =>
      match Summary.add topic delta summary with
      | .ok _ summary => .ok () ⟨slice, summary, recording, events⟩
      | .error fault summary => .error fault ⟨slice, summary, recording, events⟩

def record (change : Change) : Update InPlace Unit
  | ⟨slice, summary, recording, events⟩ =>
      .ok () ⟨slice, summary, recording, if recording then events.push change else events⟩

/-- Changes the row first and the totals after it; what was done before a fault stays done. -/
def commit (change : Change) : Update InPlace Unit := do
  addToRow change.word change.old (-1)
  addToRow change.word change.new 1
  addToTotal change.old (-1)
  addToTotal change.new 1
  record change

end InPlace

instance : TopicCounts InPlace where
  wordCount view word topic := view.slice.count word topic
  total view topic := view.summary.get topic
  commit := InPlace.commit

/-! Changes that are collected now and applied later. Beside the changes in their order a log keeps
the sum of what they do to each count. It is applied by these sums, decrements first, so that a
sparse row never holds more topics than its word has tokens. -/

structure DeltaLog where
  events : Array Change
  wordDeltas : Std.HashMap (Nat × Nat) Int
  totalDeltas : Std.HashMap Nat Int

namespace DeltaLog

def empty : DeltaLog :=
  ⟨#[], ∅, ∅⟩

@[inline] def wordDelta (log : DeltaLog) (word topic : Nat) : Int :=
  log.wordDeltas.getD (word, topic) 0

@[inline] def totalDelta (log : DeltaLog) (topic : Nat) : Int :=
  log.totalDeltas.getD topic 0

def shift {κ : Type} [BEq κ] [Hashable κ] (key : κ) (delta : Int) (deltas : Std.HashMap κ Int) :
    Std.HashMap κ Int :=
  deltas.alter key fun sum => some (sum.getD 0 + delta)

def record (change : Change) : DeltaLog → DeltaLog
  | ⟨events, wordDeltas, totalDeltas⟩ =>
      ⟨events.push change,
        shift (change.word, change.new) 1 (shift (change.word, change.old) (-1) wordDeltas),
        shift change.new 1 (shift change.old (-1) totalDeltas)⟩

def wordOrder (a b : (Nat × Nat) × Int) : Bool :=
  if a.2 ≠ b.2 then a.2 < b.2
  else if a.1.1 ≠ b.1.1 then a.1.1 < b.1.1
  else a.1.2 ≤ b.1.2

def totalOrder (a b : Nat × Int) : Bool :=
  if a.2 ≠ b.2 then a.2 < b.2 else a.1 ≤ b.1

def wordChanges (log : DeltaLog) : List ((Nat × Nat) × Int) :=
  (log.wordDeltas.toList.filter fun entry => entry.2 ≠ 0).mergeSort wordOrder

def totalChanges (log : DeltaLog) : List (Nat × Int) :=
  (log.totalDeltas.toList.filter fun entry => entry.2 ≠ 0).mergeSort totalOrder

def applyToRows : List ((Nat × Nat) × Int) → Update Slice Unit
  | [], slice => .ok () slice
  | ((word, topic), delta) :: changes, slice =>
      match Slice.add word topic (Number.narrow delta) slice with
      | .ok _ slice => applyToRows changes slice
      | .error fault slice => .error fault slice

def applyToTotals : List (Nat × Int) → Update Summary Unit
  | [], summary => .ok () summary
  | (topic, delta) :: changes, summary =>
      match Summary.add topic delta summary with
      | .ok _ summary => applyToTotals changes summary
      | .error fault summary => .error fault summary

/-- Applies the log to the rows and after that to the
totals; what was done before a fault stays done. -/
def mergeInto (log : DeltaLog) : Update (Slice × Summary) Unit
  | (slice, summary) =>
      match applyToRows log.wordChanges slice with
      | .error fault slice => .error fault (slice, summary)
      | .ok _ slice =>
          match applyToTotals log.totalChanges summary with
          | .error fault summary => .error fault (slice, summary)
          | .ok _ summary => .ok () (slice, summary)

end DeltaLog

/-! The view of one worker among several: the counts from the start of a pass, which nobody changes,
together with the worker's own log. -/

structure Overlay where
  slice : Slice
  summary : Summary
  log : DeltaLog

namespace Overlay

def start (slice : Slice) (summary : Summary) : Overlay :=
  ⟨slice, summary, DeltaLog.empty⟩

@[inline] def wordCount (view : Overlay) (word topic : Nat) : Int :=
  view.slice.count word topic + view.log.wordDelta word topic

@[inline] def total (view : Overlay) (topic : Nat) : Int :=
  view.summary.get topic + view.log.totalDelta topic

/-- Refuses a word of another slice, and a topic of which the word has no token left. -/
def commit (change : Change) : Update Overlay Unit := fun view =>
  if !view.slice.contains change.word then
    .error (.unknownWord change.word view.slice.id) view
  else
    let remaining := view.wordCount change.word change.old
    if remaining < 1 then .error (.negativeCount change.old (remaining - 1)) view
    else
      match view with
      | ⟨slice, summary, log⟩ => .ok () ⟨slice, summary, log.record change⟩

end Overlay

instance : TopicCounts Overlay where
  wordCount := Overlay.wordCount
  total := Overlay.total
  commit := Overlay.commit

end LatentTopics
