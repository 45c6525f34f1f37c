import Mathlib
import LatentTopics.Proofs.Vocabulary.Runs

/-! Looking a word up. The words are in order, so that
bisection finds the entry of a word, if it has one. -/
namespace LatentTopics.Vocabulary

variable {vocab : Vocabulary}

theorem wordAtIndex_lt (ordered : Ordered vocab.words.toList) {first second : Nat}
    (before : first < second) (inside : second < vocab.words.size) :
    vocab.wordAtIndex first < vocab.wordAtIndex second := by
  have order := List.pairwise_iff_getElem.mp ordered first second
    (by simpa using before.trans inside)
    (by simpa using inside) before
  simpa [wordAtIndex, Array.getD_eq_getD_getElem?, inside, before.trans inside] using order

theorem index?_eq_some (ordered : Ordered vocab.words.toList) (word index : Nat) :
    vocab.index? word = some index ↔ ∃ entry, vocab.words[index]? = some entry ∧
      entry.word = word := by
  have downward : Search.Downward (fun i => decide (vocab.wordAtIndex i < word))
      vocab.words.size := by
    intro first second order inside below
    simp only [decide_eq_true_eq] at below ⊢
    rcases Nat.eq_or_lt_of_le order with same | before
    · rwa [same]
    · exact (wordAtIndex_lt ordered before inside).trans below
  rw [index?]
  constructor
  · intro found
    split at found
    · next entry here =>
      split at found
      · next same => exact ⟨entry, Option.some.inj found ▸ here, same⟩
      · cases found
    · cases found
  · rintro ⟨entry, here, rfl⟩
    obtain ⟨inside, _⟩ := Array.getElem?_eq_some_iff.mp here
    have own : vocab.wordAtIndex index = entry.word := by
      rw [wordAtIndex, Arrays.getD_of_getElem? here]
    have place : Search.split (fun i => decide (vocab.wordAtIndex i < entry.word))
        vocab.words.size = index := by
      apply (Search.split_divides downward).unique inside
      · simp [own]
      · intro earlier before
        simpa [own] using wordAtIndex_lt ordered before inside
    rw [place, here]
    exact if_pos rfl

theorem entryOf?_of_mem (ordered : Ordered vocab.words.toList) {entry : WordMeta}
    (member : entry ∈ vocab.words) :
    vocab.entryOf? entry.word = some entry := by
  obtain ⟨index, here⟩ := Array.getElem?_of_mem member
  rw [entryOf?, (index?_eq_some ordered entry.word index).mpr ⟨entry, here, rfl⟩,
    Option.bind_some, here]

theorem frequency_of_mem (ordered : Ordered vocab.words.toList) {entry : WordMeta}
    (member : entry ∈ vocab.words) :
    vocab.frequency entry.word = entry.frequency := by
  rw [frequency, entryOf?_of_mem ordered member]

end LatentTopics.Vocabulary
