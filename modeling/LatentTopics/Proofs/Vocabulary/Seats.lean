import Mathlib
import LatentTopics.Proofs.Vocabulary.Lookup

/-! Where a word sits. The slices share out the words of a vocabulary, in their order; so a word has
a seat in one slice only, and the last word of a slice tells whether the seat is beyond it. -/
namespace LatentTopics.Vocabulary

/-- A run of words with an entry at an index, counted from the start of the run. -/
structure Seats (vocab : Vocabulary) (run : SliceMeta) (index : Nat) (entry : WordMeta) : Prop where
  inside : index < run.size
  entry : vocab.words[run.start + index]? = some entry

variable {vocab : Vocabulary} {id other index : Nat} {run later : SliceMeta} {entry next : WordMeta}

theorem Seats.mem (seats : vocab.Seats run index entry) : entry ∈ vocab.words :=
  Array.mem_of_getElem? seats.entry

theorem Seats.word_eq (seats : vocab.Seats run index entry) :
    vocab.wordAtIndex (run.start + index) = entry.word := by
  rw [wordAtIndex, Arrays.getD_of_getElem? seats.entry]

theorem Seats.wordIn? (seats : vocab.Seats run index entry) :
    vocab.wordIn? run index = some entry.word := by
  rw [Vocabulary.wordIn?, seats.entry, Option.map_some]

theorem getElem?_sliceWords (vocab : Vocabulary) (run : SliceMeta) (index : Nat)
    (entry : WordMeta) :
    (vocab.sliceWords run)[index]? = some entry ↔ vocab.Seats run index entry := by
  rw [sliceWords, Array.getElem?_toList, Array.getElem?_extract]
  constructor
  · intro here
    split at here
    · next inside => exact ⟨by rw [SliceMeta.size]; omega, here⟩
    · cases here
  · rintro ⟨inside, here⟩
    have below := (Array.getElem?_eq_some_iff.mp here).1
    rw [SliceMeta.size] at inside
    rw [if_pos (by omega), here]

theorem indexIn?_eq_some (ordered : Ordered vocab.words.toList) (run : SliceMeta)
    (word index : Nat) :
    vocab.indexIn? run word = some index ↔ ∃ entry, vocab.Seats run index entry ∧
      entry.word = word := by
  rw [indexIn?]
  constructor
  · intro found
    split at found
    · next place known =>
      obtain ⟨entry, here, same⟩ := (index?_eq_some ordered word place).mp known
      split at found
      · next bounds =>
        obtain rfl := Option.some.inj found
        refine ⟨entry, ⟨?_, ?_⟩, same⟩
        · rw [SliceMeta.size]
          omega
        · rwa [Nat.add_sub_cancel' bounds.1]
      · cases found
    · cases found
  · rintro ⟨entry, ⟨inside, here⟩, same⟩
    rw [SliceMeta.size] at inside
    rw [(index?_eq_some ordered word (run.start + index)).mpr ⟨entry, here, same⟩]
    dsimp only
    rw [if_pos ⟨Nat.le_add_right _ _, by omega⟩, Nat.add_sub_cancel_left]

theorem indexIn?_eq_none (ordered : Ordered vocab.words.toList) (run : SliceMeta) (word : Nat) :
    vocab.indexIn? run word = none ↔ ∀ index entry, vocab.Seats run index entry →
      entry.word ≠ word := by
  rw [Option.eq_none_iff_forall_ne_some]
  constructor
  · intro missing index entry seats same
    exact missing index ((indexIn?_eq_some ordered run word index).mpr ⟨entry, seats, same⟩)
  · intro missing index found
    obtain ⟨entry, seats, same⟩ := (indexIn?_eq_some ordered run word index).mp found
    exact missing index entry seats same

namespace Sliced

variable (sliced : vocab.Sliced)
include sliced

theorem exists_seats (member : entry ∈ vocab.words) :
    ∃ (id : Nat) (run : SliceMeta) (index : Nat), vocab.slices[id]? = some run ∧
      vocab.Seats run index entry := by
  rw [← Array.mem_toList_iff, ← sliced.flatMap_sliceWords, List.mem_flatMap] at member
  obtain ⟨run, listed, inside⟩ := member
  obtain ⟨id, there⟩ := Array.getElem?_of_mem (Array.mem_toList_iff.mp listed)
  obtain ⟨index, here⟩ := List.getElem?_of_mem inside
  exact ⟨id, run, index, there, (getElem?_sliceWords vocab run index entry).mp here⟩

theorem seats_of_lt (there : vocab.slices[id]? = some run) (inside : index < run.size) :
    ∃ entry, vocab.Seats run index entry := by
  obtain ⟨_, most⟩ := sliced.bounds there
  have below : run.start + index < vocab.words.size := by
    rw [SliceMeta.size] at inside
    omega
  exact ⟨_, inside, Array.getElem?_eq_getElem below⟩

theorem words_eq (there : vocab.slices[id]? = some run) :
    run.id = id ∧ run.firstWord = vocab.wordAtIndex run.start ∧
      run.lastWord = vocab.wordAtIndex (run.stop - 1) := by
  have place := sliced.place id run there
  exact ⟨congrArg SliceMeta.id place, congrArg SliceMeta.firstWord place,
    congrArg SliceMeta.lastWord place⟩

variable (ordered : Ordered vocab.words.toList)
include ordered

theorem word_mem_bounds (there : vocab.slices[id]? = some run)
    (seats : vocab.Seats run index entry) :
    run.firstWord ≤ entry.word ∧ entry.word ≤ run.lastWord := by
  obtain ⟨nonempty, most⟩ := sliced.bounds there
  obtain ⟨_, first, last⟩ := sliced.words_eq there
  have inside := seats.inside
  rw [SliceMeta.size] at inside
  rw [first, last, ← seats.word_eq]
  constructor
  · rcases Nat.eq_zero_or_pos index with rfl | positive
    · exact Nat.le_refl _
    · exact (wordAtIndex_lt ordered (Nat.lt_add_of_pos_right positive) (by omega)).le
  · rcases Nat.eq_or_lt_of_le (show run.start + index ≤ run.stop - 1 by omega) with same | before
    · rw [same]
    · exact (wordAtIndex_lt ordered before (by omega)).le

theorem lastWord_lt (before : id < other) (here : vocab.slices[id]? = some run)
    (there : vocab.slices[other]? = some later) :
    run.lastWord < later.firstWord := by
  obtain ⟨nonempty, _⟩ := sliced.bounds here
  obtain ⟨nonempty', most⟩ := sliced.bounds there
  have apart := sliced.stop_le_start before here there
  rw [(sliced.words_eq here).2.2, (sliced.words_eq there).2.1]
  exact wordAtIndex_lt ordered (by omega) (by omega)

theorem le_lastWord_iff (here : vocab.slices[id]? = some run) (seats : vocab.Seats run index entry)
    (there : vocab.slices[other]? = some later) : entry.word ≤ later.lastWord ↔ id ≤ other := by
  obtain ⟨least, most⟩ := sliced.word_mem_bounds ordered here seats
  constructor
  · intro within
    by_contra beyond
    have := sliced.lastWord_lt ordered (not_le.mp beyond) there here
    omega
  · intro order
    rcases Nat.eq_or_lt_of_le order with rfl | before
    · rw [here] at there
      exact Option.some.inj there ▸ most
    · obtain ⟨nonempty, _⟩ := sliced.bounds there
      obtain ⟨first, sits⟩ :=
        sliced.seats_of_lt there (show 0 < later.size by rw [SliceMeta.size]; omega)
      have := sliced.lastWord_lt ordered before here there
      have := sliced.word_mem_bounds ordered there sits
      omega

theorem seats_unique (here : vocab.slices[id]? = some run) (seats : vocab.Seats run index entry)
    (there : vocab.slices[other]? = some later) {place : Nat} (sits : vocab.Seats later place next)
    (same : entry.word = next.word) : id = other ∧ index = place ∧ entry = next := by
  have order := (sliced.le_lastWord_iff ordered here seats there).mp
    (same ▸ (sliced.word_mem_bounds ordered there sits).2)
  have order' := (sliced.le_lastWord_iff ordered there sits here).mp
    (same ▸ (sliced.word_mem_bounds ordered here seats).2)
  obtain rfl : id = other := Nat.le_antisymm order order'
  rw [here] at there
  obtain rfl := Option.some.inj there
  have found := (indexIn?_eq_some ordered run entry.word index).mpr ⟨entry, seats, rfl⟩
  have again := (indexIn?_eq_some ordered run entry.word place).mpr ⟨next, sits, same.symm⟩
  obtain rfl : index = place := Option.some.inj (found.symm.trans again)
  exact ⟨rfl, rfl, Option.some.inj (seats.entry.symm.trans sits.entry)⟩

theorem exists_earlier_iff (here : vocab.slices[id]? = some run)
    (seats : vocab.Seats run index entry) (bound : Nat) :
    (∃ earlier < bound, ∃ other, vocab.slices[earlier]? = some other ∧
      entry.word ≤ other.lastWord) ↔ id < bound := by
  constructor
  · rintro ⟨earlier, less, other, there, least⟩
    exact ((sliced.le_lastWord_iff ordered here seats there).mp least).trans_lt less
  · exact fun less => ⟨id, less, run, here, (sliced.word_mem_bounds ordered here seats).2⟩

theorem isSome_indexIn? (here : vocab.slices[id]? = some run) (seats : vocab.Seats run index entry)
    (there : vocab.slices[other]? = some later) : (vocab.indexIn? later entry.word).isSome ↔
    id = other := by
  constructor
  · intro found
    obtain ⟨place, found⟩ := Option.isSome_iff_exists.mp found
    obtain ⟨next, sits, same⟩ := (indexIn?_eq_some ordered later entry.word place).mp found
    exact (sliced.seats_unique ordered here seats there sits same.symm).1
  · rintro rfl
    rw [here] at there
    obtain rfl := Option.some.inj there
    rw [(indexIn?_eq_some ordered run entry.word index).mpr ⟨entry, seats, rfl⟩]
    rfl

end Sliced

end LatentTopics.Vocabulary
