import Mathlib
import LatentTopics.Proofs.Counts.Checked
import LatentTopics.Proofs.Sampler.Sweeps

/-! Documents between two slices. Slices follow each other in the order of their words, as do the
tokens of a document; so the cursor stands where the next slice begins. -/
namespace LatentTopics

namespace Store

variable {vocab : Vocabulary} {store : Store}

theorem Fits.lastWord (lawful : vocab.Lawful) (fits : Fits vocab store) {id : Nat} {slice : Slice}
    {entry : SliceMeta} (here : store.slices[id]? = some slice)
    (there : vocab.slices[id]? = some entry) :
    entry.id = id ∧ entry.lastWord ∈ slice.words ∧ ∀ word ∈ slice.words, word ≤ entry.lastWord := by
  obtain ⟨nonempty, inside⟩ := lawful.sliced.bounds there
  have shape := (fits.shapes id slice entry here there).2
  have place := lawful.sliced.place id entry there
  have last : entry.lastWord = vocab.wordAtIndex (entry.stop - 1) :=
    congrArg SliceMeta.lastWord place
  refine ⟨congrArg SliceMeta.id place, ?_, ?_⟩
  · rw [last]
    exact (mem_words shape).mpr ⟨entry.stop - 1, by omega, by omega, by omega, rfl⟩
  · intro word member
    obtain ⟨index, least, below, _, rfl⟩ := (mem_words shape).mp member
    rw [last]
    rcases Nat.eq_or_lt_of_le (Nat.le_sub_one_of_lt below) with same | before
    · rw [same]
    · exact (Vocabulary.wordAtIndex_lt lawful.ordered before (by omega)).le

end Store

namespace Document

/-- A document in front of slice `id`: the cursor has passed the words of the slices before. -/
structure Paused (vocab : Vocabulary) (id : Nat) (doc : Document) : Prop where
  sorted : doc.Sorted
  passed : ∀ earlier < id, ∀ entry, vocab.slices[earlier]? = some entry →
    ∀ position word, doc.cursor ≤ position →
    doc.words[position]? = some word → entry.lastWord < word

variable {vocab : Vocabulary} {store : Store} {id numTopics : Nat} {slice : Slice}
  {entry : SliceMeta}
  {doc before after : Document}

theorem Paused.waits (paused : doc.Paused vocab id) (lawful : vocab.Lawful)
    (fits : store.Fits vocab) (here : store.slices[id]? = some slice)
    (there : vocab.slices[id]? = some entry)
    (known : ∀ token ∈ doc.tokens, ∃ entry ∈ vocab.words, entry.word = token.word)
    (small : doc.size < 2147483648) (topics : ∀ token ∈ doc.tokens, token.topic < numTopics) :
    doc.Waits slice.words numTopics entry := by
  refine ⟨paused.sorted, small, topics, ?_⟩
  obtain ⟨own, last, _⟩ := fits.lastWord lawful here there
  intro position word later read least
  obtain ⟨token, inside, rfl⟩ := mem_words read
  obtain ⟨entry', listed, same⟩ := known token inside
  obtain ⟨place, other, here', member⟩ := fits.exists_slice lawful listed
  rw [same] at member
  -- The word has a slice. An earlier one was passed, and
  -- the words of a later one are beyond the last word here.
  rcases Nat.lt_trichotomy place id with earlier | rfl | beyond
  · obtain ⟨run, there', _⟩ := fits.entry here'
    have first : entry.id ≠ 0 := by omega
    have behind := paused.passed place earlier run there' position token.word (later first) read
    have := (fits.lastWord lawful here' there').2.2 token.word member
    omega
  · rw [here] at here'
    exact Option.some.inj here' ▸ member
  · have := fits.words_lt lawful beyond here here' last member
    omega

theorem Swept.paused (swept : Swept numTopics entry before after) (paused : before.Paused vocab id)
    (own : entry.id = id) (there : vocab.slices[id]? = some entry) :
    after.Paused vocab (id + 1) := by
  constructor
  · rw [sorted_iff, swept.words]
    exact (before.sorted_iff).mp paused.sorted
  · intro earlier below other place position word reached read
    rw [swept.words] at read
    obtain ⟨beyond, later⟩ := swept.passed position word reached read
    rcases Nat.eq_or_lt_of_le (Nat.le_of_lt_succ below) with rfl | less
    · rw [there] at place
      exact Option.some.inj place ▸ beyond
    · exact paused.passed earlier less other place position word (later (by omega)) read

theorem Sorted.paused (sorted : doc.Sorted) (vocab : Vocabulary) : doc.Paused vocab 0 :=
  ⟨sorted, fun earlier below => absurd below (Nat.not_lt_zero earlier)⟩

end Document

end LatentTopics
