import Mathlib
import LatentTopics.Corpus.Document
import LatentTopics.Counts.Slice
import LatentTopics.Proofs.Counts.Slices

/-! Counts as a tally of tokens. A slice tallies a collection of tokens when it counts those of its
words, the totals when they count those of each topic. A word has at most so many tokens, its limit,
and its table a slot for each of them, so that there is always one for another token of the word. -/
namespace LatentTopics

namespace Tokens

def ofWord (tokens : Multiset Token) (word : Nat) : Nat :=
  tokens.countP fun token => token.word = word

def ofTopic (tokens : Multiset Token) (topic : Nat) : Nat :=
  tokens.countP fun token => token.topic = topic

theorem count_le_ofWord (tokens : Multiset Token) (word topic : Nat) :
    tokens.count ⟨word, topic⟩ ≤ ofWord tokens word := by
  rw [Multiset.count, ofWord, Multiset.countP_eq_card_filter, Multiset.countP_eq_card_filter]
  apply Multiset.card_le_card
  apply Multiset.monotone_filter_right
  intro token same
  exact same ▸ rfl

theorem ofWord_congr {tokens others : Multiset Token} {word : Nat}
    (same : ∀ topic, tokens.count ⟨word, topic⟩ = others.count ⟨word, topic⟩) :
    ofWord tokens word = ofWord others word := by
  rw [ofWord, ofWord, Multiset.countP_eq_card_filter, Multiset.countP_eq_card_filter]
  congr 1
  ext token
  rw [Multiset.count_filter, Multiset.count_filter]
  split
  · next own =>
    obtain ⟨other, topic⟩ := token
    obtain rfl : other = word := own
    exact same topic
  · rfl

def topicsOf (tokens : Multiset Token) (word : Nat) : Finset Nat :=
  ((tokens.filter fun token => token.word = word).map Token.topic).toFinset

theorem mem_topicsOf {tokens : Multiset Token} {word topic : Nat}
    (present : tokens.count ⟨word, topic⟩ ≠ 0) :
    topic ∈ topicsOf tokens word := by
  rw [topicsOf, Multiset.mem_toFinset, Multiset.mem_map]
  exact ⟨⟨word, topic⟩, Multiset.mem_filter.mpr ⟨Multiset.count_ne_zero.mp present, rfl⟩, rfl⟩

theorem card_topicsOf_le (tokens : Multiset Token) (word : Nat) :
    (topicsOf tokens word).card ≤ ofWord tokens word := by
  rw [ofWord, Multiset.countP_eq_card_filter, topicsOf, ← Multiset.card_map Token.topic]
  exact Multiset.toFinset_card_le _

end Tokens

namespace Slice

/-- There is room for as many tokens of a word as its limit says. -/
structure Roomy (slice : Slice) (limit : Nat → Nat) : Prop where
  small : ∀ word ∈ slice.words, limit word < 2147483648
  room : ∀ (index word capacity : Nat), slice.words[index]? = some word →
    slice.arena.kinds[index]? = some (.sparse capacity) → limit word ≤ capacity

/-- The table of a word, if it has one, has more slots than so many. -/
def Exceeds (slice : Slice) (word count : Nat) : Prop :=
  ∀ index capacity : Nat, slice.words[index]? = some word →
    slice.arena.kinds[index]? = some (.sparse capacity) →
    count < capacity

theorem Roomy.of_shape {before after : Slice} {limit : Nat → Nat} (roomy : Roomy before limit)
    (shape : SameShape before after) : Roomy after limit := by
  constructor
  · rw [shape.words]
    exact roomy.small
  · rw [shape.words, shape.kinds]
    exact roomy.room

theorem Exceeds.of_shape {before after : Slice} {word count : Nat}
    (exceeds : Exceeds before word count) (shape : SameShape before after) :
    Exceeds after word count := by
  rw [Exceeds, shape.words, shape.kinds]
  exact exceeds

structure Tallies (slice : Slice) (limit : Nat → Nat) (tokens : Multiset Token) : Prop where
  valid : Valid slice
  roomy : Roomy slice limit
  counts : ∀ word ∈ slice.words, ∀ topic, slice.count word topic = tokens.count ⟨word, topic⟩
  within : ∀ word ∈ slice.words, Tokens.ofWord tokens word ≤ limit word
  topics : ∀ token ∈ tokens, token.word ∈ slice.words → token.topic < slice.numTopics

section Slices

variable {slice : Slice} {limit : Nat → Nat} {tokens changed : Multiset Token} {word topic : Nat}
  {delta : Int}

theorem Tallies.count_nonneg (tallies : Tallies slice limit tokens) (word topic : Nat) :
    0 ≤ slice.count word topic := by
  by_cases member : word ∈ slice.words
  · rw [tallies.counts word member]
    exact Int.natCast_nonneg _
  · rw [tallies.valid.count_of_not_mem member]

/-- A word of the slice has room for its topics, and for every
topic when its table has more slots than it has tokens. -/
theorem Tallies.admits (tallies : Tallies slice limit tokens) (member : word ∈ slice.words)
    (below : topic < slice.numTopics)
    (spare : tokens.count ⟨word, topic⟩ ≠ 0 ∨ slice.Exceeds word (Tokens.ofWord tokens word)) :
    Admits slice word topic := by
  obtain ⟨index, here⟩ := Array.getElem?_of_mem member
  have inside : index < slice.arena.kinds.size := by
    rw [Arena.kinds, Array.size_map, tallies.valid.rows]
    exact (Array.getElem?_eq_some_iff.mp here).1
  refine ⟨index, here, tallies.valid.arena.admits (Array.getElem?_eq_getElem inside) below
    (Tokens.topicsOf tokens word) ?_ ?_⟩
  · intro other present
    rw [← tallies.valid.count_eq here, tallies.counts word member, Int.natCast_ne_zero] at present
    exact Tokens.mem_topicsOf present
  · intro capacity sparse
    rcases spare with present | exceeds
    · left
      rwa [← tallies.valid.count_eq here, tallies.counts word member, Int.natCast_ne_zero]
    · right
      have room := exceeds index capacity here (by rw [Array.getElem?_eq_getElem inside, sparse])
      exact (Tokens.card_topicsOf_le tokens word).trans_lt room

theorem Tallies.exceeds (tallies : Tallies slice limit tokens) (changed : Multiset Token)
    (more : tokens.count ⟨word, topic⟩ < changed.count ⟨word, topic⟩)
    (others : ∀ token, token ≠ ⟨word, topic⟩ → changed.count token = tokens.count token)
    (within : Tokens.ofWord changed word ≤ limit word) :
    slice.Exceeds word (Tokens.ofWord tokens word) := by
  have part : ⟨word, topic⟩ ::ₘ tokens ≤ changed := by
    rw [Multiset.le_iff_count]
    intro token
    rw [Multiset.count_cons]
    split
    · next same => exact same ▸ more
    · next different => exact (others token different).ge
  have one : Tokens.ofWord (⟨word, topic⟩ ::ₘ tokens) word = Tokens.ofWord tokens word + 1 :=
    Multiset.countP_cons_of_pos tokens rfl
  have fewer : Tokens.ofWord (⟨word, topic⟩ ::ₘ tokens) word ≤ Tokens.ofWord changed word :=
    Multiset.countP_le_of_le _ part
  intro index capacity here sparse
  have room := tallies.roomy.room index word capacity here sparse
  omega

theorem Tallies.add (tallies : Tallies slice limit tokens) (changed : Multiset Token) {delta : Int}
    (nonzero : delta ≠ 0) (member : word ∈ slice.words) (below : topic < slice.numTopics)
    (here : (changed.count ⟨word, topic⟩ : Int) = tokens.count ⟨word, topic⟩ + delta)
    (others : ∀ token, token ≠ ⟨word, topic⟩ → changed.count token = tokens.count token)
    (within : Tokens.ofWord changed word ≤ limit word) :
    ∃ after, Slice.add word topic delta slice = .ok () after ∧ Tallies after limit changed ∧
      SameShape slice after := by
  have small := tallies.roomy.small word member
  have before := (Tokens.count_le_ofWord tokens word topic).trans (tallies.within word member)
  have afterwards := (Tokens.count_le_ofWord changed word topic).trans within
  have range : Number.Int32Range delta := ⟨by omega, by omega⟩
  have nonneg : 0 ≤ slice.count word topic + delta := by
    rw [tallies.counts word member]
    omega
  have spare : tokens.count ⟨word, topic⟩ ≠ 0 ∨ slice.Exceeds word (Tokens.ofWord tokens word) := by
    by_cases present : tokens.count ⟨word, topic⟩ = 0
    · exact Or.inr (tallies.exceeds changed (by omega) others within)
    · exact Or.inl present
  obtain ⟨after, added, assigns⟩ :=
    Slice.add_ok tallies.valid (tallies.admits member below spare) range nonneg
  refine ⟨after, added, ⟨assigns.valid, tallies.roomy.of_shape assigns.shape, ?_, ?_, ?_⟩,
    assigns.shape⟩
  · intro other memberAfter position
    rw [assigns.shape.words] at memberAfter
    rw [assigns.counts]
    split
    · next same =>
      obtain ⟨rfl, rfl⟩ := same
      rw [tallies.counts other member, ← here, Number.narrow_eq_self (by omega) (by omega)]
    · next different =>
      rw [tallies.counts other memberAfter, others]
      intro same
      exact different (Token.mk.inj same)
  · intro other memberAfter
    rw [assigns.shape.words] at memberAfter
    by_cases same : other = word
    · rw [same]
      exact within
    · rw [Tokens.ofWord_congr (fun position => others ⟨other, position⟩ (by simp [same]))]
      exact tallies.within other memberAfter
  · intro token memberOf inside
    rw [assigns.shape.words] at inside
    rw [assigns.shape.numTopics]
    by_cases same : token = ⟨word, topic⟩
    · rw [same]
      exact below
    · apply tallies.topics token _ inside
      rwa [← Multiset.count_pos, ← others token same, Multiset.count_pos]

theorem Tallies.add_negative (tallies : Tallies slice limit tokens) (delta : Int)
    (member : word ∈ slice.words) (below : topic < slice.numTopics)
    (exceeds : slice.Exceeds word (Tokens.ofWord tokens word))
    (negative : tokens.count ⟨word, topic⟩ + delta < 0) :
    Slice.add word topic delta slice =
      .error (.negativeCount topic (tokens.count ⟨word, topic⟩ + delta)) slice := by
  rw [← tallies.counts word member] at negative ⊢
  exact Slice.add_negative tallies.valid (tallies.admits member below (Or.inr exceeds)) negative

theorem Tallies.congr (tallies : Tallies slice limit tokens)
    (same : ∀ token, token.word ∈ slice.words → changed.count token = tokens.count token) :
    Tallies slice limit changed := by
  refine ⟨tallies.valid, tallies.roomy, ?_, ?_, ?_⟩
  · intro word member topic
    rw [tallies.counts word member, same ⟨word, topic⟩ member]
  · intro word member
    rw [Tokens.ofWord_congr (fun topic => same ⟨word, topic⟩ member)]
    exact tallies.within word member
  · intro token memberOf inside
    apply tallies.topics token _ inside
    rwa [← Multiset.count_pos, ← same token inside, Multiset.count_pos]

end Slices

end Slice

namespace Summary

structure Tallies (summary : Summary) (tokens : Multiset Token) : Prop where
  counts : ∀ topic < summary.numTopics, summary.get topic = Tokens.ofTopic tokens topic

variable {summary : Summary} {tokens changed : Multiset Token} {topic : Nat} {delta : Int}

theorem add_ok (summary : Summary) (below : topic < summary.numTopics)
    (nonneg : 0 ≤ summary.get topic + delta) :
    ∃ after, add topic delta summary = .ok () after ∧ after.numTopics = summary.numTopics ∧
      after.get topic = summary.get topic + delta ∧ ∀ other, other ≠ topic →
      after.get other = summary.get other := by
  have inside : topic < summary.counts.size := below
  refine ⟨⟨summary.counts.setIfInBounds topic (summary.get topic + delta)⟩, ?_, ?_, ?_, ?_⟩
  · have here : summary.counts.getD topic 0 = summary.get topic := rfl
    rw [add]
    simp only [here]
    rw [if_pos inside, if_neg (not_lt.mpr nonneg)]
  · simp [numTopics]
  · exact Arrays.getD_set_self _ below _ _
  · intro other different
    exact Arrays.getD_set_ne _ (Ne.symm different) _ _

theorem Tallies.add (tallies : Tallies summary tokens) (changed : Multiset Token) (delta : Int)
    (below : topic < summary.numTopics)
    (here : (Tokens.ofTopic changed topic : Int) = Tokens.ofTopic tokens topic + delta)
    (others : ∀ other, other ≠ topic → Tokens.ofTopic changed other = Tokens.ofTopic tokens other) :
    ∃ after, Summary.add topic delta summary = .ok () after ∧ Tallies after changed ∧
      after.numTopics = summary.numTopics := by
  have nonneg : 0 ≤ summary.get topic + delta := by
    rw [tallies.counts topic below]
    omega
  obtain ⟨after, added, size, now, same⟩ := summary.add_ok below nonneg
  refine ⟨after, added, ⟨?_⟩, size⟩
  intro other inside
  rw [size] at inside
  by_cases own : other = topic
  · rw [own, now, tallies.counts topic below, here]
  · rw [same other own, others other own]
    exact tallies.counts other inside

theorem Tallies.get_eq (tallies : Tallies summary tokens)
    (below : ∀ token ∈ tokens, token.topic < summary.numTopics) (topic : Nat) :
    summary.get topic = Tokens.ofTopic tokens topic := by
  by_cases inside : topic < summary.numTopics
  · exact tallies.counts topic inside
  · have none : Tokens.ofTopic tokens topic = 0 := by
      rw [Tokens.ofTopic, Multiset.countP_eq_zero]
      rintro token member rfl
      exact inside (below token member)
    rw [none, get, Array.getD_eq_getD_getElem?,
      Array.getElem?_eq_none (by simpa [numTopics] using inside)]
    rfl

end Summary

end LatentTopics
