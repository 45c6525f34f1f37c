import Mathlib
import LatentTopics.Likelihood
import LatentTopics.Proofs.Counts.Confined
import LatentTopics.Proofs.Sampler.Reversal

/-! The likelihood of words in exact arithmetic. From the nonzero counts of a row and their number
comes the sum over all topics, so that the words of the vocabulary contribute what they should.
Words without a token are in no row, while the terms of the topics count them; for each of them the
likelihood falls short by the terms of a row of zeros. -/
namespace LatentTopics.Likelihood

open Finset

variable {F : Type} [Field F]

def wordTerm (g : F → F) (beta : F) (numTopics : Nat) (counts : Nat → Int) : F :=
  ∑ topic ∈ range numTopics, g (counts topic + beta)

/-- The likelihood of assignments with these counts of words and
topics under the prior, with `g` for the logarithm of gamma. -/
def dirichletMultinomial (g : F → F) (beta : F) (numTopics numVocabs : Nat)
    (counts : Nat → Nat → Int) (totals : Nat → Int) : F :=
  ∑ topic ∈ range numTopics, (g (beta * numVocabs) - numVocabs * g beta +
    ∑ word ∈ range numVocabs, g (counts word topic + beta) - g (totals topic + beta * numVocabs))

def absentWords (numTopics numVocabs : Nat) (counts : Nat → Nat → Int) : Finset Nat :=
  {word ∈ range numVocabs | ∀ topic < numTopics, counts word topic = 0}

structure Within (numTopics : Nat) (row : Row) : Prop where
  sound : row.Sound
  topics : ∀ pair ∈ row.pairs, pair.1 < numTopics

def rowTerms (g : F → F) (beta : F) (numTopics : Nat) (rows : List (Nat × Row)) : F :=
  (rows.map fun row => if row.2.pairs = [] then 0 else wordTerm g beta numTopics row.2.get).sum

section Terms

variable {vocab : Vocabulary} {store : Store} {numTopics numVocabs : Nat} {row : Row}

theorem sum_pairs (g : F → F) (beta : F) (within : Within numTopics row) :
    (row.pairs.map fun pair => g (pair.2 + beta)).sum + ((numTopics - row.pairs.length : Nat) :
        F) * g beta =
      wordTerm g beta numTopics row.get := by
  obtain ⟨sound, topics⟩ := within
  have distinct := Row.pairs_topics_nodup sound
  have held : (row.pairs.map Prod.fst).toFinset ⊆ range numTopics := by
    intro topic member
    obtain ⟨pair, inside, rfl⟩ := List.mem_map.mp (List.mem_toFinset.mp member)
    exact mem_range.mpr (topics pair inside)
  have size : (row.pairs.map Prod.fst).toFinset.card = row.pairs.length := by
    rw [List.toFinset_card_of_nodup distinct, List.length_map]
  have own : ∑ topic ∈ (row.pairs.map Prod.fst).toFinset, g (row.get topic + beta) =
      (row.pairs.map fun pair => g (pair.2 + beta)).sum := by
    rw [List.sum_toFinset _ distinct, List.map_map]
    apply congrArg List.sum
    apply List.map_congr_left
    rintro ⟨topic, count⟩ inside
    rw [Function.comp_apply, ((Row.mem_pairs sound topic count).mp inside).2]
  have rest : ∀ topic ∈ range numTopics \ (row.pairs.map Prod.fst).toFinset,
      g (row.get topic + beta) = g beta := by
    intro topic member
    have zero : row.get topic = 0 := by
      by_contra nonzero
      have inside := (Row.mem_pairs sound topic _).mpr ⟨nonzero, rfl⟩
      exact (mem_sdiff.mp member).2 (List.mem_toFinset.mpr (List.mem_map_of_mem inside))
    rw [zero, Int.cast_zero, zero_add]
  rw [wordTerm, ← sum_sdiff held, sum_congr rfl rest, sum_const, card_sdiff_of_subset held,
    card_range, size, own, nsmul_eq_mul, add_comm]

theorem pairs_eq_nil_iff (within : Within numTopics row) :
    row.pairs = [] ↔ ∀ topic < numTopics, row.get topic = 0 := by
  obtain ⟨sound, topics⟩ := within
  constructor
  · intro empty topic _
    by_contra nonzero
    have inside := (Row.mem_pairs sound topic _).mpr ⟨nonzero, rfl⟩
    rw [empty] at inside
    cases inside
  · intro zero
    rw [List.eq_nil_iff_forall_not_mem]
    rintro ⟨topic, count⟩ inside
    obtain ⟨nonzero, same⟩ := (Row.mem_pairs sound topic count).mp inside
    exact nonzero (same.symm.trans (zero topic (topics _ inside)))

theorem rowTerms_eq (g : F → F) (beta : F) (lawful : vocab.Lawful) (fits : store.Fits vocab)
    (within : ∀ row ∈ store.rows, Within numTopics row.2)
    (below : ∀ entry ∈ vocab.words, entry.word < numVocabs) :
    rowTerms g beta numTopics store.rows =
      ∑ word ∈ range numVocabs \ absentWords numTopics numVocabs store.count,
        wordTerm g beta numTopics (store.count word) := by
  have each :
      ∀ row ∈ store.rows, (if row.2.pairs = [] then 0 else wordTerm g beta numTopics row.2.get) =
      if ∀ topic < numTopics, store.count row.1 topic = 0 then 0 else wordTerm g beta numTopics
        (store.count row.1) := by
    rintro ⟨word, row⟩ member
    simp only [pairs_eq_nil_iff (within _ member), (fits.rows_counts lawful member).2]
  have words : (store.rows.map Prod.fst).toFinset ⊆ range numVocabs := by
    intro word member
    rw [List.mem_toFinset, fits.rows_words lawful, List.mem_map] at member
    obtain ⟨entry, inside, rfl⟩ := member
    exact mem_range.mpr (below entry (Array.mem_toList_iff.mp inside))
  -- A word without a row is not in the vocabulary and has no token.
  have foreign : ∀ word ∈ range numVocabs, word ∉ (store.rows.map Prod.fst).toFinset →
      (if ∀ topic < numTopics, store.count word topic = 0 then 0 else wordTerm g beta numTopics
        (store.count word)) = 0 := by
    intro word _ missing
    apply if_pos
    intro topic _
    apply fits.count_foreign lawful
    rintro entry inside rfl
    apply missing
    rw [List.mem_toFinset, fits.rows_words lawful]
    exact List.mem_map_of_mem (Array.mem_toList_iff.mpr inside)
  have present : ∑ word ∈ range numVocabs \ absentWords numTopics numVocabs store.count,
      wordTerm g beta numTopics (store.count word) =
      ∑ word ∈ range numVocabs,
        if ∀ topic < numTopics, store.count word topic = 0 then 0
        else wordTerm g beta numTopics (store.count word) := by
    rw [absentWords, ← filter_not, sum_filter]
    simp only [ite_not]
  rw [present, ← sum_subset words foreign, List.sum_toFinset _ (fits.rows_nodup lawful), rowTerms,
    List.map_congr_left each, List.map_map]
  rfl

theorem sum_absent (g : F → F) (beta : F) (counts : Nat → Nat → Int) :
    ∑ word ∈ absentWords numTopics numVocabs counts, wordTerm g beta numTopics (counts word) =
      (absentWords numTopics numVocabs counts).card * (numTopics * g beta) := by
  rw [← nsmul_eq_mul]
  apply sum_eq_card_nsmul
  intro word member
  have zero : ∀ topic ∈ range numTopics, g (counts word topic + beta) = g beta := by
    intro topic inside
    rw [(mem_filter.mp member).2 topic (mem_range.mp inside), Int.cast_zero, zero_add]
  rw [wordTerm, sum_congr rfl zero, sum_const, card_range, nsmul_eq_mul]

theorem sum_present_add (g : F → F) (beta : F) (counts : Nat → Nat → Int) :
    ∑ word ∈ range numVocabs \ absentWords numTopics numVocabs counts,
        wordTerm g beta numTopics (counts word) +
        (absentWords numTopics numVocabs counts).card * (numTopics * g beta) =
      ∑ topic ∈ range numTopics, ∑ word ∈ range numVocabs, g (counts word topic + beta) := by
  rw [← sum_absent, sum_comm]
  exact sum_sdiff (filter_subset _ _)

end Terms

variable [LinearOrder F] {g : F → F} {beta sum total : F} {numTopics numVocabs : Nat}
  {pairs : List (Nat × Int)} {row : Row}

theorem ofInt_natCast (number : Nat) : (Scalar.ofInt (number : Int) : F) = number :=
  Int.cast_natCast number

section Rows

theorem addTerms_eq (added : addTerms g beta pairs sum = .ok total) :
    total = sum + (pairs.map fun pair => g (pair.2 + beta)).sum := by
  induction pairs generalizing sum with
  | nil =>
      obtain rfl := Except.ok.inj added
      rw [List.map_nil, List.sum_nil, add_zero]
  | cons pair pairs ih =>
      rw [addTerms] at added
      split at added
      · cases added
      · rw [ih added, List.map_cons, List.sum_cons, ← add_assoc]
        rfl

theorem addRow_eq (within : Within numTopics row)
    (added : addRow g beta numTopics row sum = .ok total) :
    total = sum + if row.pairs = [] then 0 else wordTerm g beta numTopics row.get := by
  rw [addRow] at added
  split at added
  · cases added
  · next between terms =>
    rw [addTerms_eq terms] at added
    split at added
    · next empty =>
      rw [← Except.ok.inj added, if_pos (List.isEmpty_iff.mp empty), List.isEmpty_iff.mp empty,
        List.map_nil, List.sum_nil]
    · next some =>
      rw [zeroTopics] at added
      split at added
      · cases added
      · next zeros few =>
        split at few
        · obtain rfl := Except.ok.inj few
          rw [← Except.ok.inj added, if_neg fun empty => some (List.isEmpty_iff.mpr empty),
            ← sum_pairs g beta within, ← add_assoc, ofInt_natCast]
        · cases few

theorem addRows_eq {rows : List (Nat × Row)} (within : ∀ row ∈ rows, Within numTopics row.2)
    (added : addRows g beta numTopics rows sum = .ok total) :
    total = sum + rowTerms g beta numTopics rows := by
  induction rows generalizing sum with
  | nil =>
      obtain rfl := Except.ok.inj added
      exact (add_zero _).symm
  | cons row rows ih =>
      rw [addRows] at added
      split at added
      · cases added
      · next between first =>
        obtain ⟨own, rest⟩ := List.forall_mem_cons.mp within
        rw [ih rest added, addRow_eq own first, add_assoc]
        rfl

theorem addSlices_eq {slices : List Slice}
    (within : ∀ slice ∈ slices, slice.numTopics = numTopics ∧
      ∀ row ∈ slice.rows, Within numTopics row.2)
    (added : addSlices g beta slices sum = .ok total) :
    total = sum + rowTerms g beta numTopics (slices.flatMap Slice.rows) := by
  induction slices generalizing sum with
  | nil =>
      obtain rfl := Except.ok.inj added
      exact (add_zero _).symm
  | cons slice slices ih =>
      rw [addSlices] at added
      split at added
      · cases added
      · next value first =>
        obtain ⟨⟨size, rows⟩, later⟩ := List.forall_mem_cons.mp within
        rw [ofSlice, size] at first
        have own := addRows_eq rows first
        have zero : (Scalar.ofInt 0 : F) = 0 := Int.cast_zero
        rw [zero, zero_add] at own
        have rest := ih later added
        rw [own] at rest
        rw [rowTerms, List.flatMap_cons, List.map_append, List.sum_append, ← add_assoc]
        exact rest

end Rows

section Totals

theorem subtractTotals_eq {counts : List Int} {betaSum : F} {topic : Nat}
    (subtracted : subtractTotals g betaSum counts topic sum = .ok total) :
    total = sum - (counts.map fun count : Int => g (count + betaSum)).sum := by
  induction counts generalizing topic sum with
  | nil =>
      obtain rfl := Except.ok.inj subtracted
      rw [List.map_nil, List.sum_nil, sub_zero]
  | cons count counts ih =>
      rw [subtractTotals] at subtracted
      split at subtracted
      · cases subtracted
      · rw [ih subtracted, List.map_cons, List.sum_cons, ← sub_sub]
        rfl

theorem normalizer_eq {summary : Summary}
    (normalized : normalizer g beta summary numVocabs = .ok total) :
    total = ∑ topic ∈ range summary.numTopics,
      (g (beta * numVocabs) - numVocabs * g beta - g (summary.get topic + beta * numVocabs)) := by
  have columns : (summary.counts.toList.map fun count : Int => g (count + beta * numVocabs)).sum =
      ∑ topic ∈ range summary.numTopics, g (summary.get topic + beta * numVocabs) := by
    rw [Summary.numTopics, ← Array.length_toList, Finset.sum_range, ← List.sum_ofFn]
    apply congrArg List.sum
    apply List.ext_getElem
    · simp
    · intro topic inside _
      simp [Summary.get, Array.getD_eq_getD_getElem?]
  rw [normalizer] at normalized
  split at normalized
  · cases normalized
  · have subtracted := subtractTotals_eq normalized
    rw [ofInt_natCast, ofInt_natCast] at subtracted
    rw [sum_sub_distrib, sum_const, card_range, nsmul_eq_mul, ← columns]
    exact subtracted

end Totals

variable {vocab : Vocabulary} {store : Store}

theorem within_of_confined (lawful : vocab.Lawful) (confined : store.Confined vocab)
    (size : vocab.numTopics = numTopics) :
    ∀ slice ∈ store.slices.toList, slice.numTopics = numTopics ∧
      ∀ row ∈ slice.rows, Within numTopics row.2 := by
  intro slice member
  obtain ⟨id, here⟩ := Array.getElem?_of_mem (Array.mem_toList_iff.mp member)
  have own := confined.slices slice (Array.mem_of_getElem? here)
  refine ⟨(confined.fits.slice_numTopics lawful here).trans (confined.fits.numTopics.trans size),
    fun row inside => ⟨?_, ?_⟩⟩
  · exact (Store.mem_slice_rows own.valid inside).2.1
  · exact fun pair listed => size ▸ own.pairs_lt inside listed

theorem ofStore_eq (lawful : vocab.Lawful) (confined : store.Confined vocab)
    (size : vocab.numTopics = numTopics) (below : ∀ entry ∈ vocab.words, entry.word < numVocabs)
    (found : ofStore g beta store numVocabs = .ok total) :
    total + (absentWords numTopics numVocabs store.count).card * (numTopics * g beta) =
      dirichletMultinomial g beta numTopics numVocabs store.count store.summary.get := by
  have slices := within_of_confined lawful confined size
  have rows : ∀ row ∈ store.rows, Within numTopics row.2 := by
    intro row member
    obtain ⟨slice, inside, own⟩ := List.mem_flatMap.mp member
    exact (slices slice inside).2 row own
  rw [ofStore] at found
  split at found
  · cases found
  · next words added =>
    split at found
    · cases found
    · next rest normalized =>
      obtain rfl := Except.ok.inj found
      have zero : (Scalar.ofInt 0 : F) = 0 := Int.cast_zero
      have present := addSlices_eq slices added
      rw [zero, zero_add, show store.slices.toList.flatMap Slice.rows = store.rows from rfl,
        rowTerms_eq g beta lawful confined.fits rows below] at present
      have totals := normalizer_eq normalized
      rw [confined.fits.numTopics, size] at totals
      have split : dirichletMultinomial g beta numTopics numVocabs store.count store.summary.get =
          (words + (absentWords numTopics numVocabs store.count).card *
            (numTopics * g beta)) + rest := by
        rw [present, sum_present_add, totals, dirichletMultinomial, ← sum_add_distrib]
        exact sum_congr rfl fun topic _ => by ring
      rw [split, add_right_comm]

end LatentTopics.Likelihood
