import LatentTopics.Fault
import LatentTopics.Row.Arena
import LatentTopics.Vocabulary

/-! Counts: those of each word of a slice by topic, and those of each topic over all words. -/
namespace LatentTopics

/-! The counts of one vocabulary slice: its words in
increasing order, and a row of topic counts for each. -/

structure Slice where
  id : Nat
  words : Array Nat
  arena : Arena
  deriving DecidableEq, Repr, Inhabited

namespace Slice

def ofVocabulary (vocab : Vocabulary) (entry : SliceMeta) : Slice :=
  let words := vocab.sliceWords entry
  ⟨entry.id, (words.map WordMeta.word).toArray,
    Arena.ofKinds vocab.numTopics (words.map WordMeta.kind)⟩

def size (slice : Slice) : Nat :=
  slice.words.size

def numTopics (slice : Slice) : Nat :=
  slice.arena.numTopics

@[inline] def index? (slice : Slice) (word : Nat) : Option Nat :=
  Search.find? slice.words word

def contains (slice : Slice) (word : Nat) : Bool :=
  (slice.index? word).isSome

def row? (slice : Slice) (word : Nat) : Option Row :=
  (slice.index? word).bind slice.arena.row?

def rows (slice : Slice) : List (Nat × Row) :=
  (slice.words.zip slice.arena.layouts).toList.map fun (word, layout) =>
    (word, slice.arena.readAs layout)

/-- Zero for a word of another slice. -/
@[inline] def count (slice : Slice) (word topic : Nat) : Int :=
  match slice.index? word with
  | some index => slice.arena.get index topic
  | none => 0

def add (word topic : Nat) (delta : Int) : Update Slice Unit
  | ⟨id, words, arena⟩ =>
      match Search.find? words word with
      | none => .error (.unknownWord word id) ⟨id, words, arena⟩
      | some index =>
          match Arena.add index topic delta arena with
          | .ok _ arena => .ok () ⟨id, words, arena⟩
          | .error fault arena => .error fault ⟨id, words, arena⟩

def clear (slice : Slice) : Slice :=
  { slice with arena := slice.arena.clear }

end Slice

/-! The number of tokens of each topic, over all words. -/

structure Summary where
  counts : Array Int
  deriving DecidableEq, Repr, Inhabited

namespace Summary

def zero (numTopics : Nat) : Summary :=
  ⟨Array.replicate numTopics 0⟩

@[inline] def numTopics (summary : Summary) : Nat :=
  summary.counts.size

@[inline] def get (summary : Summary) (topic : Nat) : Int :=
  summary.counts.getD topic 0

/-- A failed addition changes nothing.

Totals are held in 64 bits, and no range is asked of `delta`: a sum beyond 64 bits would come out
below zero and be refused, so that a total never exceeds them. That such a sum is accepted here only
adds states to those there are. -/
def add (topic : Nat) (delta : Int) : Update Summary Unit
  | ⟨counts⟩ =>
      if topic < counts.size then
        let count := counts.getD topic 0 + delta
        if count < 0 then .error (.negativeCount topic count) ⟨counts⟩
        else .ok () ⟨counts.setIfInBounds topic count⟩
      else .error (.topicOutOfRange topic counts.size) ⟨counts⟩

def total (summary : Summary) : Int :=
  summary.counts.toList.foldr (· + ·) 0

end Summary

end LatentTopics
