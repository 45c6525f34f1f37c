import Mathlib
import LatentTopics.Likelihood
import LatentTopics.Proofs.Corpus.TopicCounters
import LatentTopics.Proofs.Counts.Checked

/-! The likelihood of counts. It exists for every store that counts tokens, and for every document
whose topics exist: no count is negative, and no row has more topics than there are. -/
namespace LatentTopics

namespace Likelihood

variable {F : Type} [Scalar F] {numTopics : Nat} {pairs : List (Nat × Int)}

theorem addTerms_ok (g : F → F) (prior : F) (nonneg : ∀ pair ∈ pairs, 0 ≤ pair.2) (sum : F) :
    ∃ total, addTerms g prior pairs sum = .ok total := by
  induction pairs generalizing sum with
  | nil => exact ⟨sum, rfl⟩
  | cons pair pairs ih =>
      obtain ⟨topic, count⟩ := pair
      have first : 0 ≤ count := nonneg _ List.mem_cons_self
      simp only [addTerms, if_neg (not_lt.mpr first)]
      exact ih (fun later member => nonneg later (List.mem_cons_of_mem _ member)) _

theorem ofHistogram_ok (g : F → F) (prior : F) (size : Nat) (nonneg : ∀ pair ∈ pairs, 0 ≤ pair.2)
    (few : pairs.length ≤ numTopics) :
    ∃ value, ofHistogram g prior numTopics size pairs = .ok value := by
  obtain ⟨sum, added⟩ := addTerms_ok g prior nonneg (docNormalizer g prior numTopics)
  simp only [ofHistogram, added, zeroTopics, if_pos few]
  exact ⟨_, rfl⟩

theorem addRow_ok (g : F → F) (beta : F) {row : Row} (nonneg : ∀ pair ∈ row.pairs, 0 ≤ pair.2)
    (few : row.pairs.length ≤ numTopics) (sum : F) :
    ∃ total, addRow g beta numTopics row sum = .ok total := by
  obtain ⟨total, added⟩ := addTerms_ok g beta nonneg sum
  simp only [addRow, added, zeroTopics, if_pos few]
  split
  · exact ⟨_, rfl⟩
  · exact ⟨_, rfl⟩

theorem addRows_ok (g : F → F) (beta : F) {rows : List (Nat × Row)}
    (nonneg : ∀ row ∈ rows, ∀ pair ∈ row.2.pairs, 0 ≤ pair.2)
    (few : ∀ row ∈ rows, row.2.pairs.length ≤ numTopics) (sum : F) :
    ∃ total, addRows g beta numTopics rows sum = .ok total := by
  induction rows generalizing sum with
  | nil => exact ⟨sum, rfl⟩
  | cons row rows ih =>
      obtain ⟨between, added⟩ :=
        addRow_ok g beta (nonneg row List.mem_cons_self) (few row List.mem_cons_self) sum
      simp only [addRows, added]
      exact ih (fun later member => nonneg later (List.mem_cons_of_mem _ member))
        (fun later member => few later (List.mem_cons_of_mem _ member)) between

theorem addSlices_ok (g : F → F) (beta : F) {slices : List Slice}
    (legal : ∀ slice ∈ slices, ∀ sum, ∃ total, addRows g beta slice.numTopics slice.rows sum =
      .ok total) (sum : F) :
    ∃ total, addSlices g beta slices sum = .ok total := by
  induction slices generalizing sum with
  | nil => exact ⟨sum, rfl⟩
  | cons slice slices ih =>
      obtain ⟨value, added⟩ := legal slice List.mem_cons_self (Scalar.ofInt 0)
      simp only [addSlices, ofSlice, added]
      exact ih (fun later member => legal later (List.mem_cons_of_mem _ member)) _

theorem subtractTotals_ok (g : F → F) (betaSum : F) {counts : List Int}
    (nonneg : ∀ count ∈ counts, 0 ≤ count) (topic : Nat) (sum : F) :
    ∃ total, subtractTotals g betaSum counts topic sum = .ok total := by
  induction counts generalizing topic sum with
  | nil => exact ⟨sum, rfl⟩
  | cons count counts ih =>
      simp only [subtractTotals, if_neg (not_lt.mpr (nonneg count List.mem_cons_self))]
      exact ih (fun later member => nonneg later (List.mem_cons_of_mem _ member)) _ _

theorem ofStore_ok (g : F → F) (beta : F) {vocab : Vocabulary} {store : Store}
    {tokens : Multiset Token} (tallies : store.Tallies vocab tokens)
    (totals : store.summary.Tallies tokens) {numVocabs : Nat} (some : numVocabs ≠ 0) :
    ∃ value, ofStore g beta store numVocabs = .ok value := by
  have legal : ∀ slice ∈ store.slices.toList, ∀ sum : F,
      ∃ total, addRows g beta slice.numTopics slice.rows sum = .ok total := by
    intro slice member sum
    obtain ⟨id, here⟩ := Array.getElem?_of_mem (Array.mem_toList_iff.mp member)
    have counted := tallies.counted id slice here
    apply addRows_ok
    · exact fun row inside pair listed => (counted.rows_topics inside listed).1
    · intro row inside
      rw [counted.numTopics]
      exact counted.length_pairs_le inside
  have nonneg : ∀ count ∈ store.summary.counts.toList, 0 ≤ count := by
    intro count member
    obtain ⟨topic, here⟩ := Array.getElem?_of_mem (Array.mem_toList_iff.mp member)
    have total := totals.counts topic (Array.getElem?_eq_some_iff.mp here).1
    rw [Summary.get, Array.getD_eq_getD_getElem?, here, Option.getD_some] at total
    exact total ▸ Int.natCast_nonneg _
  obtain ⟨words, added⟩ := addSlices_ok g beta legal (Scalar.ofInt 0)
  simp only [ofStore, added, normalizer, if_neg some]
  obtain ⟨topics, subtracted⟩ := subtractTotals_ok g (beta * Scalar.ofInt numVocabs) nonneg 0
    (Scalar.ofInt store.summary.numTopics *
      (g (beta * Scalar.ofInt numVocabs) - Scalar.ofInt numVocabs * g beta))
  rw [subtracted]
  exact ⟨_, rfl⟩

end Likelihood

theorem TopicCounter.Tallies.pairs_nonneg {counter : TopicCounter} {topics : Multiset Nat}
    (tallies : counter.Tallies topics) {pair : Nat × Int} (member : pair ∈ counter.pairs) :
    0 ≤ pair.2 := by
  obtain ⟨topic, count⟩ := pair
  have sound : (Row.sparse counter.table.slots counter.window).Sound := tallies.wellFormed.sound
  have same : counter.get topic = count := ((Row.mem_pairs sound topic count).mp member).2
  rw [← same, tallies.counts]
  exact Int.natCast_nonneg _

theorem Likelihood.ofDocument_ok {doc : Document} {numTopics : Nat}
    (below : ∀ token ∈ doc.tokens, token.topic < numTopics) (small : doc.size < 2147483648) :
    ∃ value counter, ofDocument doc numTopics ∅ = .ok value counter := by
  have size : (∅ : TopicCounter).capacity = Nat.nextPowerOfTwo TopicCounter.defaultCapacity :=
    Array.size_replicate
  have power : (∅ : TopicCounter).capacity.isPowerOfTwo := size ▸ Nat.isPowerOfTwo_nextPowerOfTwo _
  obtain ⟨counted, rebuilt, tallies, _⟩ := TopicCounter.rebuild_ok power below small
  have few := (Document.card_topics_toFinset_le below).trans (min_le_right _ _)
  obtain ⟨value, found⟩ := ofHistogram_ok logGamma docPrior doc.size (fun pair member =>
    tallies.pairs_nonneg member)
    (tallies.length_pairs_le.trans few)
  refine ⟨value, counted, ?_⟩
  simp only [ofDocument, rebuilt, found]

end LatentTopics
