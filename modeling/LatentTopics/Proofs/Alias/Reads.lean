import Mathlib
import LatentTopics.Proofs.Alias.Tables

/-! Drawing with every read checked. A checked draw has no result where an index is outside its
array, a range reaches beyond its array, or a division is by zero. On legal proposals it is the draw
itself, whatever the masses of the tables are: they decide between two tables and nothing else. -/
namespace LatentTopics

namespace Alias

def checkedBucketOf? (value size : Nat) : Option Nat :=
  if size = 0 then none
  else
    let height := totalMass / size
    let residue := totalMass % size
    let tall := residue * (height + 1)
    if value < tall then some (min (value / (height + 1)) (size - 1))
    else if height = 0 then none
    else some (min (residue + (value - tall) / height) (size - 1))

def checkedPick? (buckets : Array Bucket) (offset size value : Nat) : Option Nat :=
  match checkedBucketOf? value size with
  | none => none
  | some index =>
      if index < size then
        (buckets[offset + index]?).map fun bucket =>
          if value < bucket.threshold then index else bucket.partner
      else none

def checkedDraw? (buckets : Array Bucket) (offset size : Nat) (rng : Xorshift) :
    Option (Nat × Xorshift) :=
  let (u, rng) := rng.next31
  if offset + size ≤ buckets.size then
    (checkedPick? buckets offset size (u % totalMass)).map fun entry => (entry, rng)
  else none

theorem checkedBucketOf?_eq {value size : Nat} (positive : 0 < size) (inside : value < totalMass) :
    checkedBucketOf? value size = some (bucketOf value size) := by
  simp only [checkedBucketOf?, bucketOf, Nat.ne_of_gt positive, if_false]
  by_cases low : value < totalMass % size * (totalMass / size + 1)
  · rw [if_pos low, if_pos low]
  · have height : totalMass / size ≠ 0 := by
      intro flat
      have division := Nat.div_add_mod totalMass size
      simp only [flat, Nat.mul_zero, Nat.zero_add, Nat.mul_one] at division low
      omega
    rw [if_neg low, if_neg low, if_neg height]

theorem checkedDraw?_eq {buckets : Array Bucket} {offset size : Nat} (positive : 0 < size)
    (inside : offset + size ≤ buckets.size) (rng : Xorshift) :
    checkedDraw? buckets offset size rng = draw? buckets offset size rng := by
  have value : rng.next31.1 % totalMass < totalMass := Nat.mod_lt _ (by decide)
  have index := (bucketOf_range _ size positive value).1
  have place : offset + bucketOf (rng.next31.1 % totalMass) size < buckets.size := by omega
  simp only [checkedDraw?, draw?, checkedPick?, pick, checkedBucketOf?_eq positive value,
    if_pos inside, if_pos index, Nat.ne_of_gt positive, if_false, Array.getElem?_eq_getElem place,
    Option.map_some,
    Arrays.getD_of_getElem? (Array.getElem?_eq_getElem place)]

end Alias

namespace AliasSlice

/-- A proposal whose range of buckets is checked for every
row, also for one from which nothing is drawn. -/
def checkedPropose? (proposals : AliasSlice) (word : Nat) (rng : Xorshift) :
    Option (Nat × Xorshift) :=
  let smooth := Alias.checkedDraw? proposals.smoothing.buckets 0 proposals.smoothing.buckets.size
  match Search.find? proposals.words word with
  | none => smooth rng
  | some index =>
      match proposals.rows[index]? with
      | none => none
      | some row =>
          if row.offset + row.size ≤ proposals.buckets.size then
            if row.dense then Alias.checkedDraw? proposals.buckets row.offset row.size rng
            else
              let (u, rng) := rng.unit31
              let sample := u * (row.mass + proposals.smoothing.mass)
              if 0 < row.size ∧ sample < row.mass then
                match Alias.checkedDraw? proposals.buckets row.offset row.size rng with
                | some (index, rng) =>
                    (proposals.topics[row.topicOffset + index]?).map fun topic => (topic, rng)
                | none => none
              else smooth rng
          else none

def DrawsOwn (proposals : AliasSlice) (row : AliasRow) (rng : Xorshift) : Prop :=
  0 < row.size ∧ rng.unit31.1 * (row.mass + proposals.smoothing.mass) < row.mass

def withMasses (masses : Nat → Float) (smoothing : Float) (proposals : AliasSlice) : AliasSlice :=
  { proposals with
    rows := proposals.rows.mapIdx fun index row => { row with mass := masses index }
    smoothing := { proposals.smoothing with mass := smoothing } }

variable {proposals : AliasSlice} {numTopics word : Nat}

theorem Legal.withMasses (legal : proposals.Legal numTopics) (masses : Nat → Float)
    (smoothing : Float) :
    (proposals.withMasses masses smoothing).Legal numTopics := by
  refine ⟨?_, ?_, legal.smoothing, legal.closed⟩
  · rw [AliasSlice.withMasses, Array.size_mapIdx]
    exact legal.size
  · intro row member
    obtain ⟨index, inside, rfl⟩ := Array.mem_mapIdx.mp member
    obtain ⟨within, closed, dense, sparse⟩ := legal.rows _ (Array.getElem_mem inside)
    exact ⟨within, closed, dense, sparse⟩

theorem Legal.exists_row (legal : proposals.Legal numTopics) {index : Nat}
    (found : Search.find? proposals.words word = some index) :
    ∃ row, proposals.rows[index]? = some row ∧
      row.Legal numTopics proposals.buckets proposals.topics := by
  have inside : index < proposals.rows.size := by
    rw [legal.size]
    simp only [Search.find?] at found
    split at found
    · next here =>
      obtain rfl := Option.some.inj found
      exact (Array.getElem?_eq_some_iff.mp here).1
    · cases found
  exact ⟨_, Array.getElem?_eq_getElem inside, legal.rows _ (Array.getElem_mem inside)⟩

theorem Legal.checkedPropose?_eq (legal : proposals.Legal numTopics)
    (positive : 0 < numTopics) (word : Nat) (rng : Xorshift) :
    proposals.checkedPropose? word rng = proposals.propose? word rng := by
  have smooth : Alias.checkedDraw? proposals.smoothing.buckets 0 proposals.smoothing.buckets.size =
      proposals.smoothing.draw? := by
    funext rng
    exact Alias.checkedDraw?_eq (legal.smoothing ▸ positive) (Nat.zero_add _).le rng
  rw [checkedPropose?, AliasSlice.propose?, smooth]
  cases found : Search.find? proposals.words word with
  | none => rfl
  | some index =>
      obtain ⟨row, here, own⟩ := legal.exists_row found
      simp only [here, if_pos own.inside]
      cases dense : row.dense with
      | true =>
          simp only [if_true]
          exact Alias.checkedDraw?_eq (own.dense dense ▸ positive) own.inside rng
      | false =>
          simp only [Bool.false_eq_true, if_false, drawSparse?]
          split
          · next taken =>
            rewrite [Alias.checkedDraw?_eq taken.1 own.inside]
            cases Alias.draw? proposals.buckets row.offset row.size rng.unit31.2 <;> rfl
          · rfl

theorem build_own_topics {vocab : Vocabulary} {run : SliceMeta} {slice : Slice}
    (valid : slice.Valid) (shape : (Slice.ofVocabulary vocab run).SameShape slice)
    (summary : Summary) (beta betaSum : Float) {index : Nat}
    (seated : slice.words[index]? = some word) {row : AliasRow}
    (here : (build vocab run slice summary beta betaSum).rows[index]? = some row)
    (sparse : row.dense = false) :
    ∀ entry < row.size, ∃ topic, slice.count word topic ≠ 0 ∧
      (build vocab run slice summary beta betaSum).topics[row.topicOffset + entry]? =
        some topic := by
  obtain ⟨seat, counts, _, _, place, table⟩ := exists_table valid shape seated
  obtain ⟨_, sound, same⟩ := Store.mem_slice_rows valid (List.mem_of_getElem? place)
  obtain ⟨made, there, dense, carries⟩ := build_carries table summary beta betaSum
  obtain rfl : row = made := Option.some.inj (here.symm.trans there)
  rw [sparse] at dense
  rw [← dense] at carries
  have length : row.size = counts.pairs.length := by
    rw [carries.size, tableOf, if_neg Bool.false_ne_true]
    dsimp only
    rw [(AliasTable.ofWeights_closed _).1, sparseWeights, List.length_map]
  intro entry below
  have inside : entry < counts.pairs.length := length ▸ below
  have nonzero :=
    ((Row.mem_pairs sound counts.pairs[entry].1 counts.pairs[entry].2).mp (List.getElem_mem inside))
  refine ⟨counts.pairs[entry].1, ?_, ?_⟩
  · rw [← same, nonzero.2]
    exact nonzero.1
  · have range := carries.topics
    rw [tableOf, if_neg Bool.false_ne_true] at range
    dsimp only at range
    rw [Arrays.getElem?_of_extract range (by rwa [List.size_toArray, List.length_map]),
      List.getElem?_toArray, List.getElem?_map, List.getElem?_eq_getElem inside, Option.map_some]

theorem propose?_own {topics : Nat → Prop} {index : Nat} {row : AliasRow} {rng next : Xorshift}
    {topic : Nat} (found : Search.find? proposals.words word = some index)
    (here : proposals.rows[index]? = some row) (sparse : row.dense = false)
    (own : proposals.DrawsOwn row rng) (closed : Alias.Closed proposals.buckets row.offset row.size)
    (every : ∀ entry < row.size, ∃ topic, topics topic ∧
      proposals.topics[row.topicOffset + entry]? = some topic)
    (drew : proposals.propose? word rng = some (topic, next)) : topics topic := by
  obtain ⟨entry, after, drawn, below⟩ := closed.draw? own.1 rng.unit31.2
  obtain ⟨meant, listed, read⟩ := every entry below
  have taken : 0 < row.size ∧ rng.unit31.1 * (row.mass + proposals.smoothing.mass) < row.mass := own
  simp only [AliasSlice.propose?, found, here, sparse, Bool.false_eq_true, if_false, drawSparse?,
    if_pos taken] at drew
  simp only [drawn, read, Option.map_some, Option.some.injEq, Prod.mk.injEq] at drew
  exact drew.1 ▸ listed

end AliasSlice

/-- A proposal with every read checked: it is made, it is a topic, and a sparse row that draws from
its own table draws a topic that the word has. -/
structure AliasSlice.Proposes (numTopics : Nat) (slice : Slice) (proposals : AliasSlice)
    (word : Nat) (rng : Xorshift) (topic : Nat) (next : Xorshift) : Prop where
  drawn : proposals.propose? word rng = some (topic, next)
  checked : proposals.checkedPropose? word rng = some (topic, next)
  below : topic < numTopics
  own : ∀ index row, Search.find? proposals.words word = some index →
    proposals.rows[index]? = some row →
    row.dense = false → proposals.DrawsOwn row rng → slice.count word topic ≠ 0

/-- Proposals that are built from counts of topics propose topics, for any word, with any masses in
place of those that were summed, and no read on the way is out of range. -/
theorem AliasSlice.proposes_of_topics {terms : List (Nat × Nat)} {numTopics loadFactor : Nat}
    {vocab : Vocabulary} (made : Vocabulary.ofFrequencies terms numTopics loadFactor = .ok vocab)
    (positive : 0 < numTopics) (limits : Cells) {store : Store}
    (reached : Store.Reachable (vocab.slice limits) store) {id : Nat} {run : SliceMeta}
    {slice : Slice} (there : (vocab.slice limits).slices[id]? = some run)
    (here : store.slices[id]? = some slice)
    (topics : ∀ word topic, slice.count word topic ≠ 0 → topic < numTopics) {summary : Summary}
    (size : summary.numTopics = numTopics) (beta betaSum : Float) (masses : Nat → Float)
    (smoothing : Float) (word : Nat) (rng : Xorshift) :
    ∃ topic next, AliasSlice.Proposes numTopics slice
      ((AliasSlice.build (vocab.slice limits) run slice summary beta betaSum).withMasses masses
        smoothing) word rng topic
        next := by
  have lawful := Vocabulary.lawful_of_frequencies made limits
  obtain ⟨valid, shape⟩ := (reached.fits lawful).shapes id slice run here there
  have confined : slice.Confined numTopics := ⟨valid, topics⟩
  have legal := (confined.build_legal shape size beta betaSum).withMasses masses smoothing
  obtain ⟨topic, next, drawn, below⟩ := legal.propose? positive word rng
  refine ⟨topic, next, drawn, (legal.checkedPropose?_eq positive word rng).trans drawn, below, ?_⟩
  intro index row found place sparse own
  have seated := (valid.increasing.find?_eq_some word index).mp found
  have closed := (legal.rows row (Array.mem_of_getElem? place)).closed
  -- Apart from its mass the row is as it was built.
  have built := place
  rw [AliasSlice.withMasses, Array.getElem?_mapIdx, Option.map_eq_some_iff] at built
  obtain ⟨old, before, rfl⟩ := built
  have every := AliasSlice.build_own_topics valid shape summary beta betaSum seated before sparse
  exact AliasSlice.propose?_own found place sparse own closed every drawn

/-- A rare word, which draws from its own table or from the
smoothing table, whose mass is no number. -/
theorem AliasSlice.proposes_of_topics_mixed :
    let vocab := Vocabulary.slice ⟨0, 0⟩ ⟨12, #[⟨3, 8, .dense, true⟩, ⟨9, 1, .sparse 2, false⟩],
        #[⟨0, 3, 9, 0, 2⟩]⟩
    let run : SliceMeta := ⟨0, 3, 9, 0, 2⟩
    let slice := Update.left (Slice.add 9 5 1) (Slice.ofVocabulary vocab run)
    (∀ word topic, slice.count word topic ≠ 0 → topic < 12) ∧ slice.count 9 5 = 1 ∧
      ∃ topic next, AliasSlice.Proposes 12 slice
        ((AliasSlice.build vocab run slice (Summary.zero 12) 0.5 1.0).withMasses (fun _ => 1.0)
        (0.0 / 0.0)) 9 (Xorshift.ofSeed 1) topic next := by
  intro vocab run slice
  obtain ⟨there, confined, count, _, store, reached, here⟩ := Store.exists_mixed
  exact ⟨confined.topics, count, AliasSlice.proposes_of_topics Vocabulary.ofFrequencies_mixed
    (by decide) ⟨0, 0⟩ reached there here confined.topics (show (Summary.zero 12).numTopics =
    12 by decide) 0.5 1.0 (fun _ => 1.0) (0.0 / 0.0) 9
    (Xorshift.ofSeed 1)⟩

end LatentTopics
