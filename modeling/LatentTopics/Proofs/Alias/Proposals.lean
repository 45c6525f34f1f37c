import Mathlib
import LatentTopics.Alias.Slice
import LatentTopics.Proofs.Alias.Draws
import LatentTopics.Proofs.Arrays

/-! Word proposals. Whatever the weights are, a draw from a table is one of its entries, so that a
proposal for any word is a topic. -/
namespace LatentTopics

namespace Alias

namespace Share

theorem length_hand (each extra : Nat) (shares : List Share) :
    (hand each extra shares).length = shares.length := by
  induction shares generalizing extra with
  | nil => rfl
  | cons share shares ih =>
      rw [hand]
      split <;> simp [ih]

theorem length_reduceFirst (units : Nat) (shares : List Share) :
    (reduceFirst units shares).length = shares.length := by
  induction shares generalizing units with
  | nil => rfl
  | cons share shares ih =>
      rw [reduceFirst]
      split <;> simp [ih]

theorem length_relieve (turns excess : Nat) (shares : List Share) :
    (relieve turns excess shares).length = shares.length := by
  induction turns generalizing excess shares with
  | zero => rfl
  | succ turns ih =>
      simp only [relieve]
      split
      · rfl
      · split
        · exact length_reduceFirst excess shares
        · rw [ih, reduce, List.length_map]

theorem length_settle (shares : List Share) : (settle shares).length = shares.length := by
  simp only [settle]
  split
  · exact length_hand _ _ shares
  · exact length_relieve _ _ shares

end Share

theorem length_shares (weights : List Float) : (shares weights).length = weights.length := by
  simp only [shares]
  split <;> simp

theorem length_quantize (weights : List Float) : (quantize weights).length = weights.length := by
  rw [quantize, List.length_map, Share.length_settle, length_shares]

/-- A stretch of buckets whose partners are entries of the stretch. -/
def Closed (buckets : Array Bucket) (offset size : Nat) : Prop :=
  ∀ index < size, (buckets.getD (offset + index) default).partner < size

variable {buckets : Array Bucket} {offset size : Nat}

theorem Closed.pick_lt (closed : Closed buckets offset size) (positive : 0 < size) (value : Nat) :
    pick buckets offset size value < size := by
  have inside : bucketOf value size < size := by
    rw [bucketOf]
    omega
  simp only [pick]
  split
  · exact inside
  · exact closed _ inside

theorem Closed.draw? (closed : Closed buckets offset size) (positive : 0 < size) (rng : Xorshift) :
    ∃ index next, Alias.draw? buckets offset size rng = some (index, next) ∧ index < size := by
  refine ⟨_, rng.next31.2, ?_, closed.pick_lt positive (rng.next31.1 % totalMass)⟩
  simp [Alias.draw?, Nat.ne_of_gt positive]

theorem Closed.append (closed : Closed buckets offset size) (inside : offset + size ≤ buckets.size)
    (more : Array Bucket) : Closed (buckets ++ more) offset size := by
  intro index below
  rw [Array.getD_eq_getD_getElem?, Array.getElem?_append_left (by omega),
    ← Array.getD_eq_getD_getElem?]
  exact closed index below

end Alias

theorem AliasTable.ofWeights_cons (weight : Float) (weights : List Float) :
    ofWeights (weight :: weights) =
      ⟨Alias.bucketsOfMasses (Alias.quantize (weight :: weights)),
        Alias.weightSum (weight :: weights)⟩ := by
  delta ofWeights
  rfl

theorem AliasTable.ofWeights_mass (weights : List Float) :
    (ofWeights weights).mass = Alias.weightSum weights := by
  cases weights with
  | nil => rfl
  | cons weight weights => rw [ofWeights_cons]

theorem AliasTable.ofWeights_closed (weights : List Float) :
    (ofWeights weights).buckets.size = weights.length ∧
      Alias.Closed (ofWeights weights).buckets 0 weights.length := by
  cases weights with
  | nil =>
      refine ⟨rfl, ?_⟩
      intro index below
      exact absurd below (Nat.not_lt_zero index)
  | cons weight weights =>
      rw [ofWeights_cons]
      dsimp only
      rw [Alias.size_bucketsOfMasses, Alias.length_quantize]
      refine ⟨rfl, ?_⟩
      intro index below
      have range := Alias.bucketsOfMasses_withinRange (Alias.quantize (weight :: weights))
        (below.trans_eq (Alias.length_quantize _).symm)
      rw [Alias.length_quantize] at range
      rw [Nat.zero_add]
      exact range.partner

/-- What a row of proposals needs so that its draws are topics. -/
structure AliasRow.Legal (numTopics : Nat) (buckets : Array Alias.Bucket) (topics : Array Nat)
    (row : AliasRow) : Prop where
  inside : row.offset + row.size ≤ buckets.size
  closed : Alias.Closed buckets row.offset row.size
  dense : row.dense = true → row.size = numTopics
  sparse : row.dense = false → ∀ index < row.size, ∃ topic < numTopics,
    topics[row.topicOffset + index]? = some topic

theorem AliasRow.Legal.append {numTopics : Nat} {buckets : Array Alias.Bucket} {topics : Array Nat}
    {row : AliasRow} (legal : Legal numTopics buckets topics row) (more : Array Alias.Bucket)
    (others : List Nat) : Legal numTopics (buckets ++ more) (topics ++ others) row := by
  constructor
  · rw [Array.size_append]
    exact legal.inside.trans (Nat.le_add_right _ _)
  · exact legal.closed.append legal.inside more
  · exact legal.dense
  · intro isSparse index below
    obtain ⟨topic, bound, here⟩ := legal.sparse isSparse index below
    refine ⟨topic, bound, ?_⟩
    rw [Arrays.getElem?_appendList_left topics others (Array.getElem?_eq_some_iff.mp here).1, here]

namespace AliasSlice

structure Legal (numTopics : Nat) (proposals : AliasSlice) : Prop where
  size : proposals.rows.size = proposals.words.size
  rows : ∀ row ∈ proposals.rows, row.Legal numTopics proposals.buckets proposals.topics
  smoothing : proposals.smoothing.buckets.size = numTopics
  closed : Alias.Closed proposals.smoothing.buckets 0 numTopics

variable {numTopics : Nat} {summary : Summary}

theorem tableOf_closed (size : summary.numTopics = numTopics) (dense : Bool) {row : Row}
    (below : ∀ pair ∈ row.pairs, pair.1 < numTopics) (beta betaSum : Float) :
    Alias.Closed (tableOf dense row summary beta betaSum).1.buckets 0
        (tableOf dense row summary beta betaSum).1.buckets.size ∧
      (dense = true → (tableOf dense row summary beta betaSum).1.buckets.size = numTopics) ∧
      (dense = false →
        (tableOf dense row summary beta betaSum).1.buckets.size =
          (tableOf dense row summary beta betaSum).2.length) ∧
      ∀ topic ∈ (tableOf dense row summary beta betaSum).2, topic < numTopics := by
  cases dense with
  | true =>
      obtain ⟨length, closed⟩ := AliasTable.ofWeights_closed (denseWeights row summary beta betaSum)
      have weights : (denseWeights row summary beta betaSum).length = numTopics := by
        rw [denseWeights, List.length_map, List.length_range, size]
      simp only [tableOf, if_true]
      rw [length]
      exact ⟨closed, fun _ => weights, fun impossible => (Bool.noConfusion impossible),
        fun topic member => absurd member List.not_mem_nil⟩
  | false =>
      obtain ⟨length, closed⟩ :=
        AliasTable.ofWeights_closed (sparseWeights row.pairs summary betaSum)
      have weights : (sparseWeights row.pairs summary betaSum).length = row.pairs.length := by
        rw [sparseWeights, List.length_map]
      simp only [tableOf, Bool.false_eq_true, if_false]
      rw [length]
      refine ⟨closed, fun impossible => impossible.elim,
        fun _ => by rw [weights, List.length_map], ?_⟩
      intro topic member
      obtain ⟨pair, inside, rfl⟩ := List.mem_map.mp member
      exact below pair inside

theorem appendTables_legal (size : summary.numTopics = numTopics) (beta betaSum : Float)
    (list : List (Bool × Row)) (below : ∀ entry ∈ list, ∀ pair ∈ entry.2.pairs, pair.1 < numTopics)
    {rows : Array AliasRow} {buckets : Array Alias.Bucket} {topics : Array Nat}
    (legal : ∀ row ∈ rows, row.Legal numTopics buckets topics) :
    ∃ rows' buckets' topics', appendTables summary beta betaSum list rows buckets topics =
        (rows', buckets', topics') ∧
      rows'.size = rows.size + list.length ∧
      ∀ row ∈ rows', row.Legal numTopics buckets' topics' := by
  induction list generalizing rows buckets topics with
  | nil => exact ⟨rows, buckets, topics, rfl, rfl, legal⟩
  | cons entry list ih =>
      obtain ⟨dense, row⟩ := entry
      obtain ⟨closed, whole, few, own⟩ :=
        tableOf_closed size dense (below _ List.mem_cons_self) beta betaSum
      cases made : tableOf dense row summary beta betaSum with
      | mk table rowTopics =>
          rw [made] at closed whole few own
          dsimp only at closed whole few own
          have next : ∀ other ∈ rows.push ⟨buckets.size, table.buckets.size, topics.size,
              dense, table.mass⟩,
              other.Legal numTopics (buckets ++ table.buckets) (topics ++ rowTopics) := by
            intro other member
            rcases Array.mem_push.mp member with old | rfl
            · exact (legal other old).append _ _
            -- The new row begins where the buffers ended.
            · refine ⟨by rw [Array.size_append], ?_, whole, ?_⟩
              · intro index inside
                have read := closed index inside
                rw [Nat.zero_add] at read
                rw [Array.getD_eq_getD_getElem?, Array.getElem?_append_right (Nat.le_add_right _ _),
                  Nat.add_sub_cancel_left, ← Array.getD_eq_getD_getElem?]
                exact read
              · intro isSparse index inside
                rw [few isSparse] at inside
                refine ⟨rowTopics[index], own _ (List.getElem_mem inside), ?_⟩
                rw [← List.getElem?_eq_getElem inside]
                exact Arrays.getElem?_appendList_right topics rowTopics index
          obtain ⟨rows', buckets', topics', appended, length, legal'⟩ :=
            ih (fun other later => below other (List.mem_cons_of_mem _ later)) next
          refine ⟨rows', buckets', topics', ?_, ?_, legal'⟩
          · rw [appendTables, made]
            exact appended
          · rw [length, Array.size_push, List.length_cons]
            omega

theorem build_legal (vocab : Vocabulary) {entry : SliceMeta} {slice : Slice}
    (size : summary.numTopics = numTopics)
    (words : slice.words.size = (vocab.sliceWords entry).length)
    (rows : slice.rows.length = slice.words.size)
    (below : ∀ row ∈ slice.rows, ∀ pair ∈ row.2.pairs, pair.1 < numTopics) (beta betaSum : Float) :
    (build vocab entry slice summary beta betaSum).Legal numTopics := by
  have flags :
      (((vocab.sliceWords entry).map WordMeta.aliasDense).zip (slice.rows.map Prod.snd)).length =
      slice.words.size := by
    rw [List.length_zip, List.length_map, List.length_map, ← words, rows, Nat.min_self]
  have empty : ∀ row ∈ (#[] : Array AliasRow), row.Legal numTopics #[] #[] :=
    fun row member => absurd member (Array.not_mem_empty row)
  obtain ⟨made, buckets, topics, appended, length, legal⟩ := appendTables_legal size beta betaSum
    (((vocab.sliceWords entry).map WordMeta.aliasDense).zip (slice.rows.map Prod.snd)) (by
      rintro ⟨dense, row⟩ member
      obtain ⟨pair, inside, rfl⟩ := List.mem_map.mp (List.of_mem_zip member).2
      exact below pair inside) empty
  rw [flags] at length
  obtain ⟨weights, closed⟩ :=
    AliasTable.ofWeights_closed (AliasTable.smoothingWeights summary beta betaSum)
  have every : (AliasTable.smoothingWeights summary beta betaSum).length = numTopics := by
    rw [AliasTable.smoothingWeights, List.length_map, Array.length_toList]
    exact size
  rw [every] at weights closed
  simp only [build, appended]
  exact ⟨by rw [length]; exact Nat.zero_add _, legal, weights, closed⟩

theorem Legal.propose? {proposals : AliasSlice} (legal : proposals.Legal numTopics)
    (positive : 0 < numTopics) (word : Nat) (rng : Xorshift) :
    ∃ topic next, proposals.propose? word rng = some (topic, next) ∧ topic < numTopics := by
  have smooth : ∀ rng, ∃ topic next, proposals.smoothing.draw? rng = some (topic, next) ∧
      topic < numTopics := by
    intro rng
    rw [AliasTable.draw?, legal.smoothing]
    exact legal.closed.draw? positive rng
  rw [AliasSlice.propose?]
  -- A word without a row draws from the smoothing table, as does a sparse row now and then.
  cases found : Search.find? proposals.words word with
  | none => exact smooth rng
  | some index =>
      have inside : index < proposals.rows.size := by
        rw [legal.size]
        simp only [Search.find?] at found
        split at found
        · next here =>
          obtain rfl := Option.some.inj found
          exact (Array.getElem?_eq_some_iff.mp here).1
        · cases found
      have own := legal.rows proposals.rows[index] (Array.getElem_mem inside)
      simp only [Array.getElem?_eq_getElem inside]
      cases dense : proposals.rows[index].dense with
      | true =>
          have closed := own.closed
          rw [own.dense dense] at closed
          simp only [if_true, own.dense dense]
          exact closed.draw? positive rng
      | false =>
          simp only [Bool.false_eq_true, if_false, drawSparse?]
          split
          · next taken =>
            obtain ⟨drawn, next, drew, below⟩ := own.closed.draw? taken.1 rng.unit31.2
            obtain ⟨topic, bound, here⟩ := own.sparse dense drawn below
            exact ⟨topic, next, by simp only [drew, here, Option.map_some], bound⟩
          · exact smooth _

end AliasSlice

end LatentTopics
