import LatentTopics.Alias.Buckets
import LatentTopics.Counts.Slice

/-! Alias tables, one by one and all those of a slice. -/
namespace LatentTopics

/-! An alias table for a list of weights, and the smoothing table: the part of every sparse word's
proposal that does not depend on the word, `β / (n_t + βV)` for each topic. -/

structure AliasTable where
  buckets : Array Alias.Bucket
  /-- The sum of the weights as they were given. -/
  mass : Float
  deriving DecidableEq, Repr, Inhabited

namespace AliasTable

def ofWeights (weights : List Float) : AliasTable :=
  match weights with
  | [] => ⟨#[], Alias.weightSum weights⟩
  | _ => ⟨Alias.bucketsOfMasses (Alias.quantize weights), Alias.weightSum weights⟩

@[inline] def draw? (table : AliasTable) (rng : Xorshift) : Option (Nat × Xorshift) :=
  Alias.draw? table.buckets 0 table.buckets.size rng

def smoothingWeights (summary : Summary) (beta betaSum : Float) : List Float :=
  summary.counts.toList.map fun count => beta / (floatOfInt count + betaSum)

def smoothing (summary : Summary) (beta betaSum : Float) : AliasTable :=
  ofWeights (smoothingWeights summary beta betaSum)

end AliasTable

/-! The word proposals of one slice, built from the counts at the start of a pass and only read
after that. All tables stand in one array of buckets. A dense row has a bucket for every topic; a
sparse row has one for every topic of its word, in the order of the count row, with a map from
buckets to topics, and shares the smoothing table with the other sparse rows. -/

structure AliasRow where
  offset : Nat
  size : Nat
  topicOffset : Nat
  dense : Bool
  mass : Float
  deriving DecidableEq, Repr, Inhabited

structure AliasSlice where
  sliceId : Nat
  words : Array Nat
  rows : Array AliasRow
  buckets : Array Alias.Bucket
  topics : Array Nat
  smoothing : AliasTable
  deriving DecidableEq, Repr, Inhabited

namespace AliasSlice

def denseWeights (row : Row) (summary : Summary) (beta betaSum : Float) : List Float :=
  (List.range summary.numTopics).map fun topic =>
    (floatOfInt (row.get topic) + beta) / (floatOfInt (summary.get topic) + betaSum)

def sparseWeights (pairs : List (Nat × Int)) (summary : Summary) (betaSum : Float) : List Float :=
  pairs.map fun (topic, count) => floatOfInt count / (floatOfInt (summary.get topic) + betaSum)

def tableOf (dense : Bool) (row : Row) (summary : Summary) (beta betaSum : Float) :
    AliasTable × List Nat :=
  if dense then (AliasTable.ofWeights (denseWeights row summary beta betaSum), [])
  else
    let pairs := row.pairs
    (AliasTable.ofWeights (sparseWeights pairs summary betaSum), pairs.map Prod.fst)

def appendTables (summary : Summary) (beta betaSum : Float) :
    List (Bool × Row) → Array AliasRow → Array Alias.Bucket → Array Nat →
      Array AliasRow × Array Alias.Bucket × Array Nat
  | [], rows, buckets, topics => (rows, buckets, topics)
  | (dense, row) :: rest, rows, buckets, topics =>
      let (table, rowTopics) := tableOf dense row summary beta betaSum
      appendTables summary beta betaSum rest
        (rows.push ⟨buckets.size, table.buckets.size, topics.size, dense, table.mass⟩)
        (buckets ++ table.buckets) (topics ++ rowTopics)

def build (vocab : Vocabulary) (entry : SliceMeta) (slice : Slice) (summary : Summary)
    (beta betaSum : Float) : AliasSlice :=
  let flags := (vocab.sliceWords entry).map WordMeta.aliasDense
  let (rows, buckets, topics) :=
    appendTables summary beta betaSum (flags.zip (slice.rows.map Prod.snd)) #[] #[] #[]
  ⟨slice.id, slice.words, rows, buckets, topics, AliasTable.smoothing summary beta betaSum⟩

def contains (proposals : AliasSlice) (word : Nat) : Bool :=
  (Search.find? proposals.words word).isSome

/-- Draws from a sparse row or from the smoothing table, as their masses go. -/
@[inline] def drawSparse? (proposals : AliasSlice) (row : AliasRow) (rng : Xorshift) :
    Option (Nat × Xorshift) :=
  let (u, rng) := rng.unit31
  let sample := u * (row.mass + proposals.smoothing.mass)
  if 0 < row.size ∧ sample < row.mass then
    match Alias.draw? proposals.buckets row.offset row.size rng with
    | some (index, rng) =>
        (proposals.topics[row.topicOffset + index]?).map fun topic => (topic, rng)
    | none => none
  else proposals.smoothing.draw? rng

/-- Draws a topic for a word. A word of another slice has only the smoothing table. -/
def propose? (proposals : AliasSlice) (word : Nat) (rng : Xorshift) : Option (Nat × Xorshift) :=
  match Search.find? proposals.words word with
  | none => proposals.smoothing.draw? rng
  | some index =>
      match proposals.rows[index]? with
      | none => none
      | some row =>
          if row.dense then Alias.draw? proposals.buckets row.offset row.size rng
          else drawSparse? proposals row rng

end AliasSlice

end LatentTopics
