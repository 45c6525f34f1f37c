import Mathlib
import LatentTopics.Proofs.Alias.Schedules
import LatentTopics.Proofs.Counts.Balance
import LatentTopics.Proofs.Counts.Usage
import LatentTopics.Proofs.Vocabulary.Cuts

/-! What slices and their proposals use, and what was planned for them. The plan is made from the
frequencies of words alone. The rows of a slice use just that; the tables of its proposals follow
the counts of the moment, but a row that sums to the frequency of its word has no more topics than
that. So a slice of several words keeps to the limits that it was cut by. -/
namespace LatentTopics

theorem Row.length_pairs_le_total {row : Row} (sound : row.Sound)
    (nonneg : ∀ pair ∈ row.pairs, 0 ≤ pair.2) :
    row.pairs.length ≤ row.total := by
  have positive : ∀ pair ∈ row.pairs, 1 ≤ pair.2 := by
    rintro ⟨topic, count⟩ member
    have nonzero := ((mem_pairs sound topic count).mp member).1
    have least := nonneg _ member
    dsimp only at least ⊢
    omega
  rw [total_eq_sum]
  generalize row.pairs = pairs at positive
  induction pairs with
  | nil => exact Int.le_refl 0
  | cons pair pairs ih =>
      have own := positive pair List.mem_cons_self
      have rest := ih fun other member => positive other (List.mem_cons_of_mem _ member)
      rw [List.map_cons, List.sum_cons, List.length_cons]
      push_cast
      omega

namespace AliasSlice

/-- Memory in cells: two for a bucket, and one for a topic
of a row without a bucket for every topic. -/
def usage (proposals : AliasSlice) : Nat :=
  2 * proposals.buckets.size + proposals.topics.size

def tableCells (numTopics : Nat) : Bool × Row → Nat
  | (dense, row) => if dense then 2 * numTopics else 3 * row.pairs.length

variable {vocab : Vocabulary} {run : SliceMeta} {slice : Slice} {summary : Summary}
  {beta betaSum : Float}

theorem usage_ofTables (summary : Summary) (beta betaSum : Float) (tables : List (Bool × Row))
    (offset topicOffset : Nat) :
    2 * ((AliasPart.ofTables summary beta betaSum tables offset topicOffset).map fun part =>
        part.buckets.size).sum +
        ((AliasPart.ofTables summary beta betaSum tables offset topicOffset).map fun part =>
          part.topics.size).sum =
      (tables.map (tableCells summary.numTopics)).sum := by
  induction tables generalizing offset topicOffset with
  | nil => rfl
  | cons entry tables ih =>
      obtain ⟨dense, row⟩ := entry
      obtain ⟨buckets, topics⟩ := tableOf_sizes dense row summary beta betaSum
      have own :
          2 * (AliasPart.ofTable summary beta betaSum dense row offset topicOffset).buckets.size +
          (AliasPart.ofTable summary beta betaSum dense row offset topicOffset).topics.size =
            tableCells summary.numTopics (dense, row) := by
        simp only [AliasPart.ofTable, List.size_toArray, buckets, topics, tableCells]
        cases dense with
        | true => rfl
        | false =>
            simp only [Bool.false_eq_true, if_false]
            omega
      have rest := ih
        (offset + (AliasPart.ofTable summary beta betaSum dense row offset
          topicOffset).buckets.size)
        (topicOffset + (AliasPart.ofTable summary beta betaSum dense row offset
          topicOffset).topics.size)
      rw [AliasPart.ofTables, List.map_cons, List.map_cons, List.map_cons, List.sum_cons,
        List.sum_cons, List.sum_cons]
      omega

theorem usage_build (vocab : Vocabulary) (run : SliceMeta) (slice : Slice) (summary : Summary)
    (beta betaSum : Float) :
    (build vocab run slice summary beta betaSum).usage =
      ((tables vocab run slice).map (tableCells summary.numTopics)).sum := by
  obtain ⟨_, buckets, topics⟩ := build_eq vocab run slice summary beta betaSum
  have bucketSize := congrArg List.length buckets
  have topicSize := congrArg List.length topics
  simp only [Array.length_toList, List.length_flatten, List.map_map,
    Function.comp_def] at bucketSize topicSize
  rw [usage, bucketSize, topicSize]
  exact usage_ofTables summary beta betaSum (tables vocab run slice) 0 0

/-- Tables of rows with no more topics than their words have
tokens take no more than was planned. -/
theorem usage_le (valid : slice.Valid) (shape : (Slice.ofVocabulary vocab run).SameShape slice)
    (size : summary.numTopics = vocab.numTopics)
    (few : ∀ entry ∈ vocab.sliceWords run, ∀ row, (entry.word, row) ∈ slice.rows →
      row.pairs.length ≤ entry.frequency)
    (beta betaSum : Float) :
    (build vocab run slice summary beta betaSum).usage ≤
        ((vocab.costs (vocab.sliceWords run)).map Cells.aliases).sum := by
  rw [usage_build, Vocabulary.costs, List.map_map, size]
  apply List.Forall₂.sum_le_sum
  have words : slice.words.size = (vocab.sliceWords run).length := by
    rw [shape.words, Slice.ofVocabulary, List.size_toArray, List.length_map]
  have length : (tables vocab run slice).length = (vocab.sliceWords run).length := by
    rw [tables, List.length_zip, List.length_map, List.length_map, valid.length_rows shape,
      Nat.min_self]
  rw [List.forall₂_map_left_iff, List.forall₂_map_right_iff, List.forall₂_iff_get]
  refine ⟨length, ?_⟩
  intro index inside inside'
  -- The table of a word and its plan stand at the same index.
  obtain ⟨entry, row, seated, same, listed, here⟩ := exists_table valid shape
    (Array.getElem?_eq_getElem (words.symm ▸ inside') : slice.words[index]? = _)
  obtain ⟨_, own⟩ := List.getElem?_eq_some_iff.mp here
  obtain ⟨_, planned⟩ := List.getElem?_eq_some_iff.mp seated
  rw [List.get_eq_getElem, List.get_eq_getElem, own, planned]
  have most := few entry (List.mem_of_getElem? seated) row (same ▸ List.mem_of_getElem? listed)
  simp only [tableCells, Function.comp_apply, WordMeta.cells]
  split
  · exact Nat.le_refl _
  · omega

end AliasSlice

namespace Store

variable {vocab : Vocabulary} {store : Store}

theorem Filled.length_pairs_le (lawful : vocab.Lawful) (fits : Fits vocab store)
    (filled : store.Filled vocab) {id : Nat} {run : SliceMeta} {slice : Slice}
    (here : store.slices[id]? = some slice) {entry : WordMeta}
    (seated : entry ∈ vocab.sliceWords run) {row : Row} (listed : (entry.word, row) ∈ slice.rows) :
    row.pairs.length ≤ entry.frequency := by
  have member : (entry.word, row) ∈ store.rows :=
    List.mem_flatMap.mpr ⟨slice, Array.mem_toList_iff.mpr (Array.mem_of_getElem? here), listed⟩
  obtain ⟨_, _, _, known⟩ := Vocabulary.mem_sliceWords.mp seated
  have least := Row.length_pairs_le_total (fits.row_sound member) (filled.nonneg _ member)
  have sum := filled.sums _ member
  rw [Vocabulary.frequency_of_mem lawful.ordered (Array.mem_of_getElem? known)] at sum
  dsimp only at least sum
  omega

end Store

end LatentTopics
