import LatentTopics.Corpus.Document
import LatentTopics.Table

/-! The topic histogram of the document being sampled, in one table of its own. It is counted afresh
for every document and grows, but never shrinks, so that at most half of its slots are taken. -/
namespace LatentTopics

structure TopicCounter where
  table : Table
  deriving DecidableEq, Repr, Inhabited

namespace TopicCounter

def defaultCapacity : Nat := 1024

def ofCapacity (capacity : Nat) : TopicCounter :=
  ⟨⟨Array.replicate capacity.nextPowerOfTwo .empty, 0⟩⟩

instance : EmptyCollection TopicCounter := ⟨ofCapacity defaultCapacity⟩

@[inline] def capacity (counter : TopicCounter) : Nat :=
  counter.table.slots.size

@[inline] def window (counter : TopicCounter) : Window :=
  ⟨0, counter.capacity⟩

def clear (counter : TopicCounter) : TopicCounter :=
  ⟨⟨Array.replicate counter.capacity .empty, 0⟩⟩

/-- Room for `distinct` topics in half of the slots; a counter that has to grow starts empty. -/
def reserve (distinct : Nat) (counter : TopicCounter) : TopicCounter :=
  let needed := (2 * distinct).nextPowerOfTwo
  if counter.capacity < needed then ⟨⟨Array.replicate needed .empty, 0⟩⟩ else counter

@[inline] def get (counter : TopicCounter) (topic : Nat) : Int :=
  Table.get counter.table.slots counter.window topic

def add (topic : Nat) (delta : Int) : Update TopicCounter Unit
  | ⟨table⟩ =>
      match Table.add ⟨0, table.slots.size⟩ topic delta table with
      | .ok _ table => .ok () ⟨table⟩
      | .error fault table => .error fault ⟨table⟩

def addAll : List Token → Update TopicCounter Unit
  | [], counter => .ok () counter
  | token :: tokens, counter =>
      match add token.topic 1 counter with
      | .ok _ counter => addAll tokens counter
      | .error fault counter => .error fault counter

def rebuild (doc : Document) (numTopics : Nat) : Update TopicCounter Unit := fun counter =>
  addAll doc.tokens.toList (counter.reserve (min doc.size numTopics)).clear

def pairs (counter : TopicCounter) : List (Nat × Int) :=
  Table.live counter.table.slots counter.window

def nonzeroCount (counter : TopicCounter) : Nat :=
  Table.nonzeroCount counter.table.slots counter.window

def total (counter : TopicCounter) : Int :=
  (counter.pairs.map Prod.snd).foldr (· + ·) 0

end TopicCounter

end LatentTopics
