import Mathlib
import LatentTopics.Counts.Store
import LatentTopics.Proofs.Counts.Views
import LatentTopics.Proofs.Vocabulary.Lookup

/-! Stores. A store fits its vocabulary when its slices hold the words of the vocabulary's slices;
then every word of the vocabulary has one slice, and the search finds it. -/
namespace LatentTopics

structure Vocabulary.Lawful (vocab : Vocabulary) : Prop where
  ordered : Vocabulary.Ordered vocab.words.toList
  legal : ∀ entry ∈ vocab.words, entry.kind.Legal
  sliced : Vocabulary.Sliced vocab

theorem Vocabulary.lawful_of_frequencies {terms : List (Nat × Nat)} {numTopics loadFactor : Nat}
    {vocab : Vocabulary} (made : ofFrequencies terms numTopics loadFactor = .ok vocab)
    (limits : Cells) : (vocab.slice limits).Lawful := by
  obtain ⟨entries, laidOut, rfl⟩ := ofFrequencies_eq_ok made
  refine ⟨laidOut.ordered, ?_, slice_sliced limits _⟩
  intro entry member
  exact (layOut?_kind (laidOut.laid entry (Array.mem_toList_iff.mpr member))).1

theorem Vocabulary.numTopics_of_frequencies {terms : List (Nat × Nat)} {numTopics loadFactor : Nat}
    {vocab : Vocabulary} (made : ofFrequencies terms numTopics loadFactor = .ok vocab) :
    vocab.numTopics = numTopics := by
  obtain ⟨entries, _, rfl⟩ := ofFrequencies_eq_ok made
  rfl

namespace Store

theorem kinds_legal {vocab : Vocabulary} (lawful : vocab.Lawful) (entry : SliceMeta) :
    ∀ kind ∈ (vocab.sliceWords entry).map WordMeta.kind, kind.Legal := by
  intro kind member
  obtain ⟨word, inside, rfl⟩ := List.mem_map.mp member
  obtain ⟨index, _, _, here⟩ := Vocabulary.mem_sliceWords.mp inside
  exact lawful.legal word (Array.mem_of_getElem? here)

structure Fits (vocab : Vocabulary) (store : Store) : Prop where
  size : store.slices.size = vocab.slices.size
  shapes : ∀ (id : Nat) (slice : Slice) (entry : SliceMeta), store.slices[id]? = some slice →
    vocab.slices[id]? = some entry → slice.Valid ∧ (Slice.ofVocabulary vocab entry).SameShape slice
  numTopics : store.summary.numTopics = vocab.numTopics

section Fits

variable {vocab : Vocabulary} {store : Store}

theorem ordered_sliceWords (lawful : vocab.Lawful) (entry : SliceMeta) :
    Vocabulary.Ordered (vocab.sliceWords entry) := by
  rw [Vocabulary.sliceWords, Array.toList_extract, List.extract_eq_take_drop]
  exact List.Pairwise.sublist ((List.take_sublist _ _).trans (List.drop_sublist _ _)) lawful.ordered

theorem ofVocabulary_valid (lawful : vocab.Lawful) (entry : SliceMeta) :
    (Slice.ofVocabulary vocab entry).Valid := by
  obtain ⟨valid, _, shape, _⟩ := Arena.ofKinds_spec vocab.numTopics _ (kinds_legal lawful entry)
  refine ⟨?_, valid, ?_⟩
  · exact List.pairwise_map.mpr (ordered_sliceWords lawful entry)
  · have sizes := congrArg Array.size shape
    rw [Arena.kinds, Array.size_map] at sizes
    simp only [Slice.ofVocabulary, sizes, List.size_toArray, List.length_map]

theorem ofVocabulary_count (lawful : vocab.Lawful) (entry : SliceMeta) (word topic : Nat) :
    (Slice.ofVocabulary vocab entry).count word topic = 0 := by
  have valid := ofVocabulary_valid lawful entry
  by_cases member : word ∈ (Slice.ofVocabulary vocab entry).words
  · obtain ⟨index, here⟩ := Array.getElem?_of_mem member
    rw [valid.count_eq here]
    exact (Arena.ofKinds_spec vocab.numTopics _ (kinds_legal lawful entry)).2.2.2 index topic
  · exact valid.count_of_not_mem member topic

theorem ofVocabulary_fits (lawful : vocab.Lawful) : Fits vocab (ofVocabulary vocab) := by
  constructor
  · rw [ofVocabulary, Array.size_map]
  · intro id slice entry here there
    rw [ofVocabulary, Array.getElem?_map, there] at here
    obtain rfl := Option.some.inj here
    exact ⟨ofVocabulary_valid lawful entry, Slice.SameShape.refl _⟩
  · simp [ofVocabulary, Summary.zero, Summary.numTopics]

theorem Fits.entry (fits : Fits vocab store) {id : Nat} {slice : Slice}
    (here : store.slices[id]? = some slice) :
    ∃ entry, vocab.slices[id]? = some entry ∧ slice.Valid ∧
      (Slice.ofVocabulary vocab entry).SameShape slice := by
  have inside : id < vocab.slices.size := fits.size ▸ (Array.getElem?_eq_some_iff.mp here).1
  have there := Array.getElem?_eq_getElem inside
  exact ⟨_, there, fits.shapes id slice _ here there⟩

theorem Fits.slice (fits : Fits vocab store) {id : Nat} {entry : SliceMeta}
    (there : vocab.slices[id]? = some entry) :
    ∃ slice, store.slices[id]? = some slice ∧ slice.Valid ∧
      (Slice.ofVocabulary vocab entry).SameShape slice := by
  have inside : id < store.slices.size := fits.size ▸ (Array.getElem?_eq_some_iff.mp there).1
  have here := Array.getElem?_eq_getElem inside
  exact ⟨_, here, fits.shapes id _ entry here there⟩

theorem Fits.set (fits : Fits vocab store) {id : Nat} {slice slice' : Slice} {summary : Summary}
    (here : store.slices[id]? = some slice) (valid : slice'.Valid) (shape : slice.SameShape slice')
    (size : summary.numTopics = store.summary.numTopics) :
    Fits vocab ⟨store.slices.setIfInBounds id slice', summary⟩ := by
  have inside : id < store.slices.size := (Array.getElem?_eq_some_iff.mp here).1
  constructor
  · rw [Array.size_setIfInBounds, fits.size]
  · intro other found entry place there
    rcases Arrays.getElem?_set_cases inside place with ⟨rfl, rfl⟩ | ⟨_, old⟩
    · exact ⟨valid, (fits.shapes other slice entry here there).2.trans shape⟩
    · exact fits.shapes other found entry old there
  · exact size.trans fits.numTopics

theorem updateSlice_ok {α : Type} {id : Nat} {slice slice' : Slice}
    {step : Update Slice α} {result : α} (here : store.slices[id]? = some slice)
    (stepped : step slice = .ok result slice') :
    updateSlice id step store = .ok result ⟨store.slices.setIfInBounds id slice',
        store.summary⟩ := by
  obtain ⟨inside, rfl⟩ := Array.getElem?_eq_some_iff.mp here
  simp only [updateSlice, dif_pos inside, Array.swapAt, stepped, Arrays.setIfInBounds_set]

end Fits

section Words

variable {vocab : Vocabulary} {store : Store}

theorem mem_words {entry : SliceMeta} {slice : Slice}
    (shape : (Slice.ofVocabulary vocab entry).SameShape slice) {word : Nat} : word ∈ slice.words ↔
      ∃ index, entry.start ≤ index ∧ index < entry.stop ∧ index < vocab.words.size ∧
      vocab.wordAtIndex index = word := by
  rw [shape.words, Slice.ofVocabulary, List.mem_toArray, List.mem_map]
  constructor
  · rintro ⟨found, inside, rfl⟩
    obtain ⟨index, least, below, here⟩ := Vocabulary.mem_sliceWords.mp inside
    refine ⟨index, least, below, (Array.getElem?_eq_some_iff.mp here).1, ?_⟩
    rw [Vocabulary.wordAtIndex, Arrays.getD_of_getElem? here]
  · rintro ⟨index, least, below, inside, rfl⟩
    have here := Array.getElem?_eq_getElem inside
    refine ⟨vocab.words[index], Vocabulary.mem_sliceWords.mpr ⟨index, least, below, here⟩, ?_⟩
    rw [Vocabulary.wordAtIndex, Arrays.getD_of_getElem? here]

theorem Fits.words_lt (lawful : vocab.Lawful) (fits : Fits vocab store) {first second : Nat}
    (before : first < second) {slice later : Slice} (here : store.slices[first]? = some slice)
    (there : store.slices[second]? = some later) {word next : Nat} (member : word ∈ slice.words)
    (member' : next ∈ later.words) : word < next := by
  obtain ⟨entry, place, _, shape⟩ := fits.entry here
  obtain ⟨entry', place', _, shape'⟩ := fits.entry there
  obtain ⟨index, _, below, inside, rfl⟩ := (mem_words shape).mp member
  obtain ⟨index', least, _, inside', rfl⟩ := (mem_words shape').mp member'
  have apart := lawful.sliced.stop_le_start before place place'
  exact Vocabulary.wordAtIndex_lt lawful.ordered (by omega) inside'

theorem Fits.last (lawful : vocab.Lawful) (fits : Fits vocab store) {id : Nat} {slice : Slice}
    (here : store.slices[id]? = some slice) :
    slice.words.back?.getD 0 ∈ slice.words ∧
      ∀ word ∈ slice.words, word ≤ slice.words.back?.getD 0 := by
  obtain ⟨entry, place, valid, shape⟩ := fits.entry here
  obtain ⟨nonempty, inside⟩ := lawful.sliced.bounds place
  have some : vocab.wordAtIndex entry.start ∈ slice.words :=
    (mem_words shape).mpr ⟨entry.start, Nat.le_refl _, nonempty, by omega, rfl⟩
  have size : 0 < slice.words.size := Array.size_pos_of_mem some
  have last : slice.words.back?.getD 0 = slice.words.getD (slice.words.size - 1) 0 := by
    rw [Array.back?, Array.getD_eq_getD_getElem?]
  rw [last]
  constructor
  · rw [Array.getD_eq_getD_getElem?, Array.getElem?_eq_getElem (by omega)]
    exact Array.getElem_mem _
  · intro word member
    obtain ⟨index, found⟩ := Array.getElem?_of_mem member
    have below : index < slice.words.size := (Array.getElem?_eq_some_iff.mp found).1
    have own : slice.words.getD index 0 = word := Arrays.getD_of_getElem? found 0
    rcases Nat.eq_or_lt_of_le (Nat.le_sub_one_of_lt below) with same | before
    · rw [← same, own]
    · have := valid.increasing.lt before (by omega)
      omega

/-- The slices before the one of a word end before the word, and this one does not. -/
theorem Fits.split_eq (lawful : vocab.Lawful) (fits : Fits vocab store) {word id : Nat}
    {slice : Slice} (here : store.slices[id]? = some slice) (member : word ∈ slice.words) :
    Search.split (fun i => decide ((store.slices.getD i default).words.back?.getD 0 < word))
        store.slices.size = id := by
  have inside : id < store.slices.size := (Array.getElem?_eq_some_iff.mp here).1
  have lastOf : ∀ {id : Nat} {slice : Slice}, store.slices[id]? = some slice →
      (store.slices.getD id default).words.back?.getD 0 = slice.words.back?.getD 0 := by
    intro id slice here
    rw [Arrays.getD_of_getElem? here]
  have downward : Search.Downward
      (fun i => decide ((store.slices.getD i default).words.back?.getD 0 < word))
        store.slices.size := by
    intro first second order inside below
    rcases Nat.eq_or_lt_of_le order with same | before
    · rwa [same]
    · have here := Array.getElem?_eq_getElem (before.trans inside)
      have there := Array.getElem?_eq_getElem inside
      have less := fits.words_lt lawful before here there (fits.last lawful here).1
        (fits.last lawful there).1
      simp only [lastOf here, lastOf there, decide_eq_true_eq] at below ⊢
      omega
  apply (Search.split_divides downward).unique inside
  · simp only [lastOf here, decide_eq_false_iff_not, Nat.not_lt]
    exact (fits.last lawful here).2 word member
  · intro earlier before
    have there := Array.getElem?_eq_getElem (before.trans inside)
    simp only [lastOf there, decide_eq_true_eq]
    exact fits.words_lt lawful before there here (fits.last lawful there).1 member

theorem Fits.sliceOf?_eq_some (lawful : vocab.Lawful) (fits : Fits vocab store) (word id : Nat) :
    store.sliceOf? word = some id ↔ ∃ slice, store.slices[id]? = some slice ∧
      word ∈ slice.words := by
  rw [sliceOf?]
  constructor
  · intro found
    split at found
    · next slice here =>
      split at found
      · next contained =>
        obtain ⟨_, _, valid, _⟩ := fits.entry here
        exact ⟨slice, Option.some.inj found ▸ here, (valid.contains_iff word).mp contained⟩
      · cases found
    · cases found
  · rintro ⟨slice, here, member⟩
    obtain ⟨_, _, valid, _⟩ := fits.entry here
    rw [fits.split_eq lawful here member, here]
    exact if_pos ((valid.contains_iff word).mpr member)

theorem Fits.count_eq (lawful : vocab.Lawful) (fits : Fits vocab store) {id : Nat} {slice : Slice}
    (here : store.slices[id]? = some slice) {word : Nat} (member : word ∈ slice.words)
    (topic : Nat) :
    store.count word topic = slice.count word topic := by
  rw [count, (fits.sliceOf?_eq_some lawful word id).mpr ⟨slice, here, member⟩]
  dsimp only
  rw [Arrays.getD_of_getElem? here]

theorem Fits.exists_slice (lawful : vocab.Lawful) (fits : Fits vocab store) {entry : WordMeta}
    (member : entry ∈ vocab.words) : ∃ (id : Nat) (slice : Slice), store.slices[id]? = some slice ∧
    entry.word ∈ slice.words := by
  have whole := lawful.sliced.flatMap_sliceWords
  rw [← Array.mem_toList_iff, ← whole, List.mem_flatMap] at member
  obtain ⟨run, inside, found⟩ := member
  obtain ⟨id, there⟩ := Array.getElem?_of_mem (Array.mem_toList_iff.mp inside)
  obtain ⟨slice, here, _, shape⟩ := fits.slice there
  refine ⟨id, slice, here, ?_⟩
  rw [shape.words, Slice.ofVocabulary, List.mem_toArray]
  exact List.mem_map_of_mem found

theorem Fits.exists_entry (fits : Fits vocab store) {id : Nat} {slice : Slice}
    (here : store.slices[id]? = some slice) {word : Nat} (member : word ∈ slice.words) :
    ∃ entry ∈ vocab.words, entry.word = word := by
  obtain ⟨run, _, _, shape⟩ := fits.entry here
  rw [shape.words, Slice.ofVocabulary, List.mem_toArray, List.mem_map] at member
  obtain ⟨entry, found, rfl⟩ := member
  obtain ⟨index, _, _, there⟩ := Vocabulary.mem_sliceWords.mp found
  exact ⟨entry, Array.mem_of_getElem? there, rfl⟩

theorem Fits.count_foreign (lawful : vocab.Lawful) (fits : Fits vocab store) {word : Nat}
    (missing : ∀ entry ∈ vocab.words, entry.word ≠ word) (topic : Nat) :
    store.count word topic = 0 := by
  cases found : store.sliceOf? word with
  | none => rw [count, found]
  | some id =>
      obtain ⟨slice, here, member⟩ := (fits.sliceOf?_eq_some lawful word id).mp found
      obtain ⟨entry, inside, same⟩ := fits.exists_entry here member
      exact absurd same (missing entry inside)

theorem Fits.known_of_count (lawful : vocab.Lawful) (fits : Fits vocab store) {word topic : Nat}
    (present : store.count word topic ≠ 0) : ∃ entry ∈ vocab.words, entry.word = word := by
  by_contra unknown
  exact present (fits.count_foreign lawful (fun entry inside same =>
    unknown ⟨entry, inside, same⟩) topic)

end Words

section Reachable

def left {σ α : Type} (step : Update σ α) (state : σ) : σ :=
  match step state with
  | .ok _ state => state
  | .error _ state => state

/-- The stores that come from an empty one by changing counts and clearing slices. Counts of rows
change by numbers of 32 bits; what fails may be tried as well. -/
inductive Reachable (vocab : Vocabulary) : Store → Prop where
  | fresh : Reachable vocab (ofVocabulary vocab)
  | count {store : Store} (reached : Reachable vocab store) (id word topic : Nat) {delta : Int}
      (range : Number.Int32Range delta) :
        Reachable vocab (left (updateSlice id (Slice.add word topic delta)) store)
  | total {store : Store} (reached : Reachable vocab store) (topic : Nat) (delta : Int) :
      Reachable vocab (left (updateSummary (Summary.add topic delta)) store)
  | clear {store : Store} (reached : Reachable vocab store) (id : Nat) :
      Reachable vocab (left (updateSlice id fun slice => .ok () slice.clear) store)

variable {vocab : Vocabulary} {store : Store}

theorem reachable_lone :
    Reachable (Vocabulary.slice ⟨0, 0⟩ ⟨2, #[⟨7, 2, .dense, true⟩], #[⟨0, 7, 7, 0, 1⟩]⟩)
    ⟨#[⟨0, #[7], ⟨2, #[1, 1], #[], #[.dense 0]⟩⟩], ⟨#[1, 1]⟩⟩ := by
  let vocab := Vocabulary.slice ⟨0, 0⟩ ⟨2, #[⟨7, 2, .dense, true⟩], #[⟨0, 7, 7, 0, 1⟩]⟩
  have empty : Reachable vocab (ofVocabulary vocab) := .fresh
  have one : Number.Int32Range 1 := ⟨by decide, by decide⟩
  have reached := (((empty.count 0 7 0 one).total 0 1).count 0 7 1 one).total 1 1
  have counted : left (updateSummary (Summary.add 1 1)) (left (updateSlice 0 (Slice.add 7 1 1))
      (left (updateSummary (Summary.add 0 1))
      (left (updateSlice 0 (Slice.add 7 0 1)) (ofVocabulary vocab)))) =
      ⟨#[⟨0, #[7], ⟨2, #[1, 1], #[], #[.dense 0]⟩⟩], ⟨#[1, 1]⟩⟩ := by
    decide +kernel
  rwa [counted] at reached

theorem Fits.left_updateSlice (fits : Fits vocab store) {α : Type} (id : Nat)
    (step : Update Slice α) (keeps : ∀ slice : Slice, slice.Valid → (left step slice).Valid ∧
      slice.SameShape (left step slice)) : Fits vocab (left (updateSlice id step) store) := by
  by_cases inside : id < store.slices.size
  · have here := Array.getElem?_eq_getElem inside
    obtain ⟨_, _, valid, _⟩ := fits.entry here
    obtain ⟨after, shape⟩ := keeps _ valid
    have set := fits.set here after shape rfl
    rw [left] at set ⊢
    cases stepped : step store.slices[id] <;>
      simpa only [updateSlice, dif_pos inside, Array.swapAt, stepped,
        Arrays.setIfInBounds_set] using set
  · simp only [left, updateSlice, dif_neg inside]
    exact fits

theorem left_summary (summary : Summary) (topic : Nat) (delta : Int) :
    (left (Summary.add topic delta) summary).numTopics = summary.numTopics := by
  simp only [left, Summary.add, Summary.numTopics]
  split
  · next result after added =>
    split at added
    · split at added
      · cases added
      · cases added
        exact Array.size_setIfInBounds
    · cases added
  · next fault after refused =>
    split at refused
    · split at refused
      · cases refused
        rfl
      · cases refused
    · cases refused
      rfl

theorem Reachable.fits (lawful : vocab.Lawful) (reachable : Reachable vocab store) :
    Fits vocab store := by
  induction reachable with
  | fresh => exact ofVocabulary_fits lawful
  | count reached id word topic range ih =>
      apply ih.left_updateSlice
      intro slice valid
      rcases Slice.add_outcome valid word topic range with ⟨after, added, _,
        assigns⟩ | ⟨fault, refused⟩
      · rw [left, added]
        exact ⟨assigns.valid, assigns.shape⟩
      · rw [left, refused]
        exact ⟨valid, Slice.SameShape.refl slice⟩
  | @total store reached topic delta ih =>
      have size := left_summary store.summary topic delta
      rw [left] at size
      simp only [left, updateSummary]
      cases stepped : Summary.add topic delta store.summary with
      | ok result after =>
          rw [stepped] at size
          exact ⟨ih.size, ih.shapes, size.trans ih.numTopics⟩
      | error fault after =>
          rw [stepped] at size
          exact ⟨ih.size, ih.shapes, size.trans ih.numTopics⟩
  | clear reached id ih =>
      apply ih.left_updateSlice
      intro slice valid
      exact ⟨valid.clear, slice.clear_shape⟩

end Reachable

end Store

end LatentTopics
