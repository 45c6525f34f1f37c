import LatentTopics.Alias.Slice

/-! The word proposals of a slice as they are built in place. The number of topics
in each row says how much room its table needs, and the arrays are cut into parts
of that size, one for each word. A part is filled without a look at the others, in
any order, by workers that keep one set of buffers each for all parts that they
fill. What stands in a part or in the buffers before is written over. -/
namespace LatentTopics

namespace Alias

structure Scratch where
  weights : List Float
  masses : Array Nat
  low : List Nat
  high : List Nat

instance : EmptyCollection Scratch := ⟨⟨[], #[], [], []⟩⟩

namespace Filling

def place (size index mass : Nat) : Filling → Filling
  | ⟨low, high, masses, buckets⟩ =>
      if mass < capacity index size then ⟨index :: low, high, masses, buckets⟩
      else if capacity index size < mass then ⟨low, index :: high, masses, buckets⟩
      else ⟨low, high, masses, buckets.setIfInBounds index (full size index)⟩

def placeFrom (size : Nat) : List Nat → Nat → Filling → Filling
  | [], _, filling => filling
  | mass :: masses, index, filling =>
      placeFrom size masses (index + 1) (filling.place size index mass)

def pour (size : Nat) : Filling → Filling
  | ⟨poor :: low, rich :: high, masses, buckets⟩ =>
      let mass := masses.getD poor 0
      let left := masses.getD rich 0 - (capacity poor size - mass)
      place size rich left ⟨low, high, masses.setIfInBounds rich left,
        buckets.setIfInBounds poor ⟨rich, Alias.start poor size + mass⟩⟩
  | filling => filling

def pourOn (size : Nat) : Nat → Filling → Filling
  | 0, filling => filling
  | steps + 1, filling => pourOn size steps (filling.pour size)

/-- Entries that are left on the lists keep their buckets for themselves. -/
def close (size : Nat) (filling : Filling) : Array Bucket :=
  (filling.low.reverse ++ filling.high.reverse).foldl
    (fun buckets index => buckets.setIfInBounds index (full size index)) filling.buckets

end Filling

/-- Writes the table of the weights over buckets; there must
be one for each weight. Without buckets nothing is done. -/
def fillInPlace? (buckets : Array Bucket) (scratch : Scratch) : Option (Array Bucket × Scratch) :=
  let size := buckets.size
  if size = 0 then some (buckets, scratch)
  else if scratch.weights.length ≠ size then none
  else
    let masses := quantize scratch.weights
    let placed := Filling.placeFrom size masses 0 ⟨[], [], masses.toArray, buckets⟩
    let filling := placed.pourOn size (placed.low.length + placed.high.length)
    some (filling.close size, ⟨scratch.weights, filling.masses, filling.low, filling.high⟩)

def carve? {α : Type} : List Nat → List α → Option (List (List α) × List α)
  | [], values => some ([], values)
  | size :: sizes, values =>
      if values.length < size then none
      else
        match carve? sizes (values.drop size) with
        | some (pieces, rest) => some (values.take size :: pieces, rest)
        | none => none

def writeTopics? : List Nat → Nat → Array Nat → Option (Array Nat)
  | [], _, topics => some topics
  | topic :: rest, index, topics =>
      if index < topics.size then
        writeTopics? rest (index + 1) (topics.setIfInBounds index topic)
      else none

end Alias

structure AliasPart where
  row : AliasRow
  buckets : Array Alias.Bucket
  topics : Array Nat
  deriving DecidableEq, Repr, Inhabited

def AliasRow.topicSize (row : AliasRow) : Nat :=
  if row.dense then 0 else row.size

def AliasPart.fill? (summary : Summary) (beta betaSum : Float) (row : Row) (scratch : Alias.Scratch)
    (part : AliasPart) : Option (AliasPart × Alias.Scratch) :=
  let written :=
    if part.row.dense then some (AliasSlice.denseWeights row summary beta betaSum, part.topics)
    else
      (Alias.writeTopics? (row.pairs.map Prod.fst) 0 part.topics).map fun topics =>
        (AliasSlice.sparseWeights row.pairs summary betaSum, topics)
  match written with
  | none => none
  | some (weights, topics) =>
      match Alias.fillInPlace? part.buckets { scratch with weights := weights } with
      | none => none
      | some (buckets, scratch) =>
          some (⟨{ part.row with mass := Alias.weightSum scratch.weights }, buckets,
            topics⟩, scratch)

namespace AliasSlice

/-- The parts of all words and the buffers of all workers. -/
structure Site where
  parts : Array AliasPart
  scratches : Nat → Alias.Scratch

def Site.work? (rows : Array Row) (summary : Summary) (beta betaSum : Float) (worker index : Nat)
    (site : Site) : Option Site :=
  match rows[index]?, site.parts[index]? with
  | some row, some part =>
      match part.fill? summary beta betaSum row (site.scratches worker) with
      | some (part, scratch) =>
          some ⟨site.parts.setIfInBounds index part, fun other =>
            if other = worker then scratch else site.scratches other⟩
      | none => none
  | _, _ => none

/-- A schedule says which worker fills the parts of which
word, in the order in which this is done. -/
def Site.workAll? (rows : Array Row) (summary : Summary) (beta betaSum : Float) :
    List (Nat × Nat) → Site → Option Site
  | [], site => some site
  | (worker, index) :: schedule, site =>
      match site.work? rows summary beta betaSum worker index with
      | some site => site.workAll? rows summary beta betaSum schedule
      | none => none

/-- The rows before their tables are built, one behind another. A row without a bucket for every
topic has one for each topic that it holds. -/
def plan (numTopics : Nat) : List (Bool × Row) → Nat → Nat → List AliasRow
  | [], _, _ => []
  | (dense, row) :: rest, offset, topicOffset =>
      let size := if dense then numTopics else row.nonzeroCount
      let planned : AliasRow := ⟨offset, size, topicOffset, dense, 0.0⟩
      planned :: plan numTopics rest (offset + size) (topicOffset + planned.topicSize)

def tables (vocab : Vocabulary) (entry : SliceMeta) (slice : Slice) : List (Bool × Row) :=
  ((vocab.sliceWords entry).map WordMeta.aliasDense).zip (slice.rows.map Prod.snd)

/-- Builds the proposals of a slice by a schedule, with buffers that may have been used before. -/
def buildInPlace? (schedule : List (Nat × Nat)) (scratches : Nat → Alias.Scratch)
    (vocab : Vocabulary) (entry : SliceMeta) (slice : Slice) (summary : Summary)
    (beta betaSum : Float) : Option AliasSlice :=
  let tables := tables vocab entry slice
  let planned := plan slice.numTopics tables 0 0
  let sizes := planned.map AliasRow.size
  let topicSizes := planned.map AliasRow.topicSize
  match Alias.carve? sizes (List.replicate (sizes.foldr (· + ·) 0) (default : Alias.Bucket)),
      Alias.carve? topicSizes (List.replicate (topicSizes.foldr (· + ·) 0) 0) with
  | some (buckets, restBuckets), some (topics, restTopics) =>
      let parts := (planned.zip (buckets.zip topics)).map fun (row, buckets, topics) =>
        (⟨row, buckets.toArray, topics.toArray⟩ : AliasPart)
      match Site.workAll? (tables.map Prod.snd).toArray summary beta betaSum schedule
        ⟨parts.toArray, scratches⟩ with
      | some ⟨parts, _⟩ =>
          some ⟨slice.id, slice.words, parts.map AliasPart.row,
            (parts.map AliasPart.buckets).flatten ++ restBuckets,
            (parts.map AliasPart.topics).flatten ++ restTopics,
            AliasTable.smoothing summary beta betaSum⟩
      | none => none
  | _, _ => none

end AliasSlice

end LatentTopics
