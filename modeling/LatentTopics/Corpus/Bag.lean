import LatentTopics.Fault
import LatentTopics.Number

/-! Bags of words: the words of a document in increasing order, each with its count. -/
namespace LatentTopics

abbrev Bag := List (Nat × Nat)

namespace Bag

def alter (word : Nat) (change : Nat → Nat) : Bag → Bag
  | [] => [(word, change 0)]
  | (first, count) :: rest =>
      if word < first then (word, change 0) :: (first, count) :: rest
      else if word = first then (first, change count) :: rest
      else (first, count) :: alter word change rest

def add (word count : Nat) (bag : Bag) : Bag :=
  bag.alter word (· + count)

/-- A word that occurs twice among the entries has its last count. -/
def ofEntries (entries : List (Nat × Nat)) : Bag :=
  entries.foldl (fun bag entry => bag.alter entry.1 fun _ => entry.2) []

def countFirst (word : Nat) : Bag → Bag
  | (first, count) :: rest =>
      if first = word then (first, count + 1) :: rest else (word, 1) :: (first, count) :: rest
  | [] => [(word, 1)]

def ofWords (words : List Nat) : Bag :=
  (words.mergeSort fun a b => a ≤ b).foldr countFirst []

end Bag

/-! Renumbering the words of bags without gaps, in their order, and back. -/
namespace Compaction

def wordsOf (bags : List Bag) : Array Nat :=
  ((Bag.ofWords (bags.flatMap fun bag => bag.map Prod.fst)).map Prod.fst).toArray

/-- Larger words have larger numbers, so the bag stays in order. -/
def compactBag (original : Array Nat) (bag : Bag) : Bag :=
  bag.filterMap fun entry => (Search.find? original entry.1).map fun id => (id, entry.2)

/-- The renumbered bags, how many words they have, and the original word of every number. -/
def compactWords (bags : List Bag) : List Bag × Nat × Array Nat :=
  let original := wordsOf bags
  (bags.map (compactBag original), original.size, original)

def compact (bags : List Bag) : List Bag × Array Nat :=
  let (compacted, _, original) := compactWords bags
  (compacted, original)

def restoreBag (original : Array Nat) (bag : Bag) : Option Bag :=
  (bag.mapM fun entry => (original[entry.1]?).map fun word => (word, entry.2)).map Bag.ofEntries

def bound (bags : List Bag) : Nat :=
  bags.foldl (fun bound bag => bag.foldl (fun bound entry => max bound (entry.1 + 1)) bound) 0

/-- The bags with their original words, and one past the largest
of these. A number without an original word is a breach. -/
def restore (bags : List Bag) (original : Array Nat) : Except Fault (List Bag × Nat) :=
  match bags.mapM (restoreBag original) with
  | some restored => .ok (restored, bound restored)
  | none => .error (.breach .indexOutOfRange)

end Compaction

end LatentTopics
