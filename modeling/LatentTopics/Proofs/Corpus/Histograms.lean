import Mathlib
import LatentTopics.Proofs.Corpus.Capacities
import LatentTopics.Proofs.Corpus.CounterStates
import LatentTopics.Proofs.Corpus.Words

/-! The counter of a document whose tokens change their topics. Whatever a counter was used for, it
counts the next document afresh. It has two slots for each topic that the document can have, so that
half of the slots stay free while tokens change, also between the two additions of a change. -/
namespace LatentTopics.TopicCounter

def HalfFree (counter : TopicCounter) : Prop :=
  2 * counter.pairs.length ≤ counter.capacity

/-- The counter says how many tokens of the document have each topic. -/
structure Histogram (doc : Document) (counter : TopicCounter) : Prop where
  counts : ∀ topic, counter.get topic = doc.tokens.countP fun token => token.topic = topic
  total : counter.total = doc.size
  halfFree : counter.HalfFree

/-- Tokens, given by their indexes, get new topics one after another, and the counter goes with
them. No addition is refused, and after each one half of the slots are free. -/
inductive Tracks : Document → TopicCounter → List (Nat × Nat) → Prop where
  | done {doc : Document} {counter : TopicCounter} (histogram : Histogram doc counter) :
      Tracks doc counter []
  | change {doc : Document} {counter lowered raised : TopicCounter} {index topic : Nat}
      {token : Token} {changes : List (Nat × Nat)} (histogram : Histogram doc counter)
      (here : doc.tokens[index]? = some token)
      (taken : add token.topic (-1) counter = .ok () lowered) (between : lowered.HalfFree)
      (put : add topic 1 lowered = .ok () raised)
      (rest : Tracks (doc.setTopic index topic) raised changes) :
      Tracks doc counter ((index, topic) :: changes)

/-- Counting a document afresh: no token is refused, half of the slots are free after each of them,
and the counter goes with the document from then on. -/
structure CountsAfresh (doc : Document) (numTopics : Nat)
    (counter counted : TopicCounter) : Prop where
  rebuilt : rebuild doc numTopics counter = .ok () counted
  halfFree : ∀ count, ∃ part, addAll (doc.tokens.toList.take count)
    (counter.reserve (min doc.size numTopics)).clear =
    .ok () part ∧ part.HalfFree
  histogram : Histogram doc counted
  tracks : ∀ changes : List (Nat × Nat), (∀ change ∈ changes, change.1 < doc.size ∧
    change.2 < numTopics) →
    Tracks doc counted changes

section Tallies

variable {counter : TopicCounter} {topics : Multiset Nat}

theorem Tallies.halfFree (tallies : Tallies counter topics)
    (few : 2 * topics.toFinset.card ≤ counter.capacity) :
    counter.HalfFree :=
  (Nat.mul_le_mul_left 2 tallies.length_pairs_le).trans few

theorem Tallies.spare (tallies : Tallies counter topics)
    (few : 2 * topics.toFinset.card ≤ counter.capacity) :
    topics.toFinset.card < counter.capacity := by
  have positive : 0 < counter.capacity := tallies.wellFormed.sound.positive
  omega

theorem Tallies.total (tallies : Tallies counter topics) :
    counter.total = Multiset.card topics := by
  have sound : (Row.sparse counter.table.slots counter.window).Sound := tallies.wellFormed.sound
  have distinct : (counter.pairs.map Prod.fst).Nodup := Row.pairs_topics_nodup sound
  have listed : ∀ pair ∈ counter.pairs, pair.2 = (topics.count pair.1 : Int) := by
    rintro ⟨topic, count⟩ member
    exact ((Row.mem_pairs sound topic count).mp member).2.symm.trans (tallies.counts topic)
  have same : (counter.pairs.map Prod.fst).toFinset = topics.toFinset := by
    ext topic
    rw [List.mem_toFinset, List.mem_map, Multiset.mem_toFinset, ← Multiset.count_ne_zero]
    constructor
    · rintro ⟨⟨topic, count⟩, member, rfl⟩ zero
      obtain ⟨nonzero, _⟩ := (Row.mem_pairs sound topic count).mp member
      apply nonzero
      exact (listed (topic, count) member).trans (Int.natCast_eq_zero.mpr zero)
    · intro present
      refine ⟨(topic, topics.count topic),
        (Row.mem_pairs sound topic _).mpr ⟨?_, tallies.counts topic⟩, rfl⟩
      exact Int.natCast_ne_zero.mpr present
  calc counter.total
      = (counter.pairs.map Prod.snd).sum := List.sum_eq_foldr.symm
    _ = ((counter.pairs.map Prod.fst).map fun topic => (topics.count topic : Int)).sum := by
        rw [List.map_map, List.map_congr_left listed]
        rfl
    _ = ∑ topic ∈ topics.toFinset, (topics.count topic : Int) := by
        rw [← List.sum_toFinset _ distinct, same]
    _ = Multiset.card topics := by
        rw [← Nat.cast_sum, Multiset.toFinset_sum_count_eq]

end Tallies

/-- In the middle of the changes: the counter counts the document,
with two slots for each topic that the document can have. -/
structure Roomy (numTopics : Nat) (doc : Document) (counter : TopicCounter) : Prop where
  tallies : counter.Tallies doc.topics
  room : 2 * min doc.size numTopics ≤ counter.capacity
  topics : ∀ token ∈ doc.tokens, token.topic < numTopics
  small : doc.size < 2147483648

section Roomy

variable {numTopics : Nat} {doc : Document} {counter : TopicCounter}

theorem Roomy.few (roomy : Roomy numTopics doc counter) :
    2 * doc.topics.toFinset.card ≤ counter.capacity :=
  (Nat.mul_le_mul_left 2 (Document.card_topics_toFinset_le roomy.topics)).trans roomy.room

theorem Roomy.histogram (roomy : Roomy numTopics doc counter) : Histogram doc counter := by
  refine ⟨?_, ?_, roomy.tallies.halfFree roomy.few⟩
  · intro topic
    rw [roomy.tallies.counts, Document.topics, Multiset.coe_count, List.count_eq_countP,
      List.countP_map, ← Array.countP_toList]
    rfl
  · rw [roomy.tallies.total, doc.card_topics]

/-- A token changes its topic: the old one leaves, so that
the new one finds as many slots as before. -/
theorem Roomy.change (roomy : Roomy numTopics doc counter) {index topic : Nat} {token : Token}
    (here : doc.tokens[index]? = some token) (below : topic < numTopics) :
    ∃ lowered raised, add token.topic (-1) counter = .ok () lowered ∧ lowered.HalfFree ∧
      add topic 1 lowered = .ok () raised ∧ Roomy numTopics (doc.setTopic index topic) raised := by
  have source : token.topic ∈ doc.topics := by
    rw [Document.topics, Multiset.mem_coe]
    exact List.mem_map_of_mem (Array.mem_toList_iff.mpr (Array.mem_of_getElem? here))
  have small : Multiset.card doc.topics < 2147483648 := doc.card_topics.trans_lt roomy.small
  obtain ⟨lowered, taken, talliesLess, sizeLess⟩ :=
    roomy.tallies.lower source (roomy.tallies.spare roomy.few) small
  have fewLess : 2 * (doc.topics.erase token.topic).toFinset.card ≤ lowered.capacity := by
    rw [sizeLess]
    exact (Nat.mul_le_mul_left 2
      (Finset.card_le_card (Multiset.toFinset_subset.mpr (Multiset.erase_subset _ _)))).trans
      roomy.few
  obtain ⟨raised, put, talliesMore, sizeMore⟩ := talliesLess.raise topic (talliesLess.spare fewLess)
    (by rw [Multiset.card_erase_add_one source]; exact small)
  have kept := (doc.kept_setTopic index topic).size
  refine ⟨lowered, raised, taken, talliesLess.halfFree fewLess, put, ?_, ?_, ?_, ?_⟩
  · rw [doc.topics_setTopic here topic]
    exact talliesMore
  · rw [kept, sizeMore, sizeLess]
    exact roomy.room
  · intro other member
    rcases Document.mem_setTopic member with old | same
    · exact roomy.topics other old
    · exact same ▸ below
  · exact kept.trans_lt roomy.small

theorem Roomy.tracks (changes : List (Nat × Nat)) (roomy : Roomy numTopics doc counter)
    (legal : ∀ change ∈ changes, change.1 < doc.size ∧ change.2 < numTopics) :
    Tracks doc counter changes := by
  induction changes generalizing doc counter with
  | nil => exact .done roomy.histogram
  | cons change changes ih =>
      obtain ⟨index, topic⟩ := change
      obtain ⟨inside, below⟩ := legal (index, topic) List.mem_cons_self
      have here : doc.tokens[index]? = some doc.tokens[index] := Array.getElem?_eq_getElem inside
      obtain ⟨lowered, raised, taken, between, put, next⟩ := roomy.change here below
      refine .change roomy.histogram here taken between put (ih next ?_)
      intro other member
      rw [(doc.kept_setTopic index topic).size]
      exact legal other (List.mem_cons_of_mem _ member)

end Roomy

theorem card_topics_take_le (doc : Document) (count : Nat) :
    (((doc.tokens.toList.take count).map Token.topic : List Nat) : Multiset Nat).toFinset.card ≤
        doc.topics.toFinset.card := by
  apply Finset.card_le_card
  intro topic member
  rw [Multiset.mem_toFinset, Multiset.mem_coe] at member
  rw [Multiset.mem_toFinset, Document.topics, Multiset.mem_coe]
  exact List.map_subset Token.topic (List.take_subset count doc.tokens.toList) member

/-- Whatever was done to a counter, and whether it succeeded or not, it counts a document afresh and
goes with it while its tokens change their topics. -/
theorem histogram_lasts {counter : TopicCounter} (used : Used counter) {doc : Document}
    {numTopics : Nat} (below : ∀ token ∈ doc.tokens, token.topic < numTopics)
    (small : doc.size < 2147483648) :
    ∃ counted, CountsAfresh doc numTopics counter counted := by
  obtain ⟨power, room⟩ := reserve_capacity used.wellFormed.capacity_power (min doc.size numTopics)
  have empty := clear_tallies power
  rw [← clear_capacity] at room
  have few := Document.card_topics_toFinset_le below
  have parts : ∀ count, ∃ part, addAll (doc.tokens.toList.take count)
      (counter.reserve (min doc.size numTopics)).clear =
      .ok () part ∧ Tallies part ((doc.tokens.toList.take count).map Token.topic : List Nat) ∧
        part.capacity = (counter.reserve (min doc.size numTopics)).clear.capacity := by
    intro count
    have fewer := (card_topics_take_le doc count).trans few
    have positive : 0 < (counter.reserve (min doc.size numTopics)).clear.capacity :=
      empty.wellFormed.sound.positive
    have short := List.length_take_le' count doc.tokens.toList
    rw [Array.length_toList] at short
    have added := empty.addAll (doc.tokens.toList.take count) (by rw [add_zero]; omega)
      (by rw [Multiset.card_zero]; exact short.trans_lt small)
    rwa [add_zero] at added
  -- The whole document is the last of these parts.
  obtain ⟨counted, added, tallies, size⟩ := parts doc.size
  have whole : doc.tokens.toList.take doc.size = doc.tokens.toList :=
    List.take_of_length_le (Array.length_toList).le
  rw [whole] at added tallies
  have roomy : Roomy numTopics doc counted := ⟨tallies, size ▸ room, below, small⟩
  refine ⟨counted, added, ?_, roomy.histogram, fun changes legal => roomy.tracks changes legal⟩
  intro count
  obtain ⟨part, done, tallies, size⟩ := parts count
  refine ⟨part, done, tallies.halfFree ?_⟩
  rw [size]
  exact (Nat.mul_le_mul_left 2 ((card_topics_take_le doc count).trans few)).trans room

/-- A counter of two slots that refused a third topic, and a
document whose three tokens come to have one topic. -/
theorem histogram_lasts_reused :
    let full := Update.left (add 4 1) (Update.left (add 9 1) (ofCapacity 2))
    let counter := Update.left (add 5 1) full
    let doc : Document := ⟨#[⟨0, 0⟩, ⟨1, 2⟩, ⟨5, 0⟩], 1⟩
    Used counter ∧ counter = full ∧ (∀ token ∈ doc.tokens, token.topic < 3) ∧
      doc.size < 2147483648 ∧
      ∃ counted, CountsAfresh doc 3 counter counted ∧
        Tracks doc counted [(0, 2), (2, 1), (2, 2)] := by
  intro full counter doc
  have one : Number.Int32Range 1 := ⟨by decide, by decide⟩
  have used : Used counter := (((Used.new 2).add 9 one).add 4 one).add 5 one
  have refused : counter = full := by
    decide +kernel
  have below : ∀ token ∈ doc.tokens, token.topic < 3 := by
    decide
  have small : doc.size < 2147483648 := by
    decide
  obtain ⟨counted, afresh⟩ := histogram_lasts used below small
  exact ⟨used, refused, below, small, counted, afresh, afresh.tracks _ (by decide)⟩

end LatentTopics.TopicCounter
