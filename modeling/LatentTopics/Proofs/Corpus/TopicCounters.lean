import Mathlib
import LatentTopics.Corpus.TopicCounter
import LatentTopics.Proofs.Row.Pairs

/-! The topic histogram of a document. It has room for all topics
that the document can have, so that counting never fills it. -/
namespace LatentTopics.TopicCounter

structure Tallies (counter : TopicCounter) (topics : Multiset Nat) : Prop where
  wellFormed : Table.WellFormed counter.window counter.table
  counts : ∀ topic, counter.get topic = topics.count topic

variable {counter : TopicCounter} {topics : Multiset Nat} {topic : Nat}

theorem Tallies.length_pairs_le (tallies : Tallies counter topics) :
    counter.pairs.length ≤ topics.toFinset.card := by
  have sound : (Row.sparse counter.table.slots counter.window).Sound := tallies.wellFormed.sound
  apply Row.length_pairs_le_card sound
  intro topic present
  rw [Multiset.mem_toFinset, ← Multiset.count_ne_zero]
  intro zero
  apply present
  have count := tallies.counts topic
  rw [zero] at count
  exact count

theorem Tallies.add (tallies : Tallies counter topics) (changed : Multiset Nat) (delta : Int)
    (few : topics.toFinset.card < counter.capacity)
    (here : (changed.count topic : Int) = topics.count topic + delta)
    (others : ∀ other, other ≠ topic → changed.count other = topics.count other)
    (small : Multiset.card topics < 2147483648) (small' : Multiset.card changed < 2147483648) :
    ∃ after, TopicCounter.add topic delta counter = .ok () after ∧ Tallies after changed ∧
      after.capacity = counter.capacity := by
  have before := Multiset.count_le_card topic topics
  have afterwards := Multiset.count_le_card topic changed
  have room : Table.HasRoom counter.table.slots counter.window topic :=
    Or.inr (tallies.length_pairs_le.trans_lt few)
  have current : Table.get counter.table.slots counter.window topic = topics.count topic :=
    tallies.counts topic
  have range : Number.Int32Range delta := ⟨by omega, by omega⟩
  obtain ⟨table, added, assigns⟩ :=
    Table.add_ok tallies.wellFormed room range (by rw [current]; omega)
  have size : table.slots.size = counter.table.slots.size := assigns.outside.size
  have same : (⟨table⟩ : TopicCounter).window = counter.window := by
    simp only [window, capacity, size]
  refine ⟨⟨table⟩, ?_, ⟨?_, ?_⟩, size⟩
  · have step : Table.add ⟨0, counter.table.slots.size⟩ topic delta counter.table =
        .ok () table := added
    simp only [TopicCounter.add, step]
  · rw [same]
    exact assigns.wellFormed
  · intro other
    simp only [get]
    rw [same, assigns.counts, current, ← here]
    split
    · next own =>
      rw [own, Number.narrow_eq_self (by omega) (by omega)]
    · next different =>
      rw [others other different]
      exact tallies.counts other

theorem Tallies.lower (tallies : Tallies counter topics) {old : Nat} (source : old ∈ topics)
    (few : topics.toFinset.card < counter.capacity) (small : Multiset.card topics < 2147483648) :
    ∃ after, TopicCounter.add old (-1) counter = .ok () after ∧ Tallies after (topics.erase old) ∧
      after.capacity = counter.capacity := by
  have less : ((topics.erase old).count old : Int) = topics.count old + -1 := by
    have some := Multiset.count_pos.mpr source
    rw [Multiset.count_erase_self]
    omega
  exact tallies.add (topics.erase old) (-1) few less (fun other different =>
    Multiset.count_erase_of_ne different topics)
    small ((Multiset.card_le_card (Multiset.erase_le old topics)).trans_lt small)

theorem Tallies.raise (tallies : Tallies counter topics) (new : Nat)
    (few : topics.toFinset.card < counter.capacity)
    (small : Multiset.card topics + 1 < 2147483648) :
    ∃ after, TopicCounter.add new 1 counter = .ok () after ∧ Tallies after (new ::ₘ topics) ∧
      after.capacity = counter.capacity := by
  have more : ((new ::ₘ topics).count new : Int) = topics.count new + 1 := by
    rw [Multiset.count_cons_self]
    rfl
  exact tallies.add (new ::ₘ topics) 1 few more (fun other different =>
    Multiset.count_cons_of_ne different topics)
    (by omega) (by rw [Multiset.card_cons]; exact small)

/-- A topic that is there leaves before the new one enters, so that there is a slot for it. -/
theorem Tallies.move (tallies : Tallies counter topics) {old : Nat}
    (source : old ∈ topics) (new : Nat) (few : topics.toFinset.card < counter.capacity)
    (small : Multiset.card topics < 2147483648) :
    ∃ lowered raised, TopicCounter.add old (-1) counter = .ok () lowered ∧
      TopicCounter.add new 1 lowered = .ok () raised ∧
      Tallies raised (new ::ₘ topics.erase old) ∧ raised.capacity = counter.capacity := by
  obtain ⟨lowered, taken, talliesLess, sizeLess⟩ := tallies.lower source few small
  have fewLess : (topics.erase old).toFinset.card < lowered.capacity := by
    rw [sizeLess]
    exact (Finset.card_le_card (Multiset.toFinset_subset.mpr (Multiset.erase_subset _ _))).trans_lt
      few
  obtain ⟨raised, put, talliesMore, sizeMore⟩ := talliesLess.raise new fewLess
    (by rw [Multiset.card_erase_add_one source]; exact small)
  exact ⟨lowered, raised, taken, put, talliesMore, sizeMore.trans sizeLess⟩

theorem Tallies.addAll (list : List Token) (tallies : Tallies counter topics)
    (few : ((list.map Token.topic : Multiset Nat) + topics).toFinset.card < counter.capacity)
    (small : list.length + Multiset.card topics < 2147483648) :
    ∃ after, TopicCounter.addAll list counter = .ok () after ∧
      Tallies after ((list.map Token.topic : Multiset Nat) + topics) ∧
      after.capacity = counter.capacity := by
  induction list generalizing counter topics with
  | nil => exact ⟨counter, rfl, by simpa using tallies, rfl⟩
  | cons token list ih =>
      have moved : (((token :: list).map Token.topic : List Nat) : Multiset Nat) + topics =
          (list.map Token.topic : Multiset Nat) + (token.topic ::ₘ topics) := by
        rw [List.map_cons, ← Multiset.cons_coe, Multiset.cons_add, Multiset.add_cons]
      rw [moved] at few ⊢
      rw [List.length_cons] at small
      -- The topics counted so far are some of those that will be counted in the end.
      have part : topics.toFinset.card < counter.capacity := by
        apply lt_of_le_of_lt (Finset.card_le_card _) few
        apply Multiset.toFinset_subset.mpr
        intro other member
        exact Multiset.mem_add.mpr (Or.inr (Multiset.mem_cons_of_mem member))
      obtain ⟨next, added, talliesNext, size⟩ := tallies.raise token.topic part (by omega)
      obtain ⟨after, rest, talliesAfter, sizeAfter⟩ :=
        ih talliesNext (size ▸ few) (by rw [Multiset.card_cons]; omega)
      refine ⟨after, ?_, talliesAfter, sizeAfter.trans size⟩
      rw [TopicCounter.addAll, added]
      exact rest

theorem clear_capacity (counter : TopicCounter) : counter.clear.capacity = counter.capacity :=
  Array.size_replicate

theorem clear_tallies (power : counter.capacity.isPowerOfTwo) : Tallies counter.clear 0 := by
  have empty : ∀ offset < counter.clear.window.capacity,
      counter.clear.window.slot counter.clear.table.slots offset = .empty :=
    fun offset _ => Arrays.getD_replicate _ _ _
  have fits : counter.clear.window.base + counter.clear.window.capacity ≤
      counter.clear.table.slots.size := by
    simp [window, capacity]
  have powerClear : counter.clear.capacity.isPowerOfTwo := by
    rw [clear_capacity]
    exact power
  have wellFormed : Table.WellFormed counter.clear.window counter.clear.table :=
    Table.wellFormed_of_empty fits powerClear empty
  exact ⟨wellFormed, fun topic =>
    wellFormed.sound.get_of_absent (Table.absent_of_empty empty topic)⟩

theorem reserve_capacity (power : counter.capacity.isPowerOfTwo) (distinct : Nat) :
    (counter.reserve distinct).capacity.isPowerOfTwo ∧
      2 * distinct ≤ (counter.reserve distinct).capacity := by
  rw [reserve]
  split
  · have grown : (⟨⟨Array.replicate (2 * distinct).nextPowerOfTwo .empty, 0⟩⟩ :
        TopicCounter).capacity =
        (2 * distinct).nextPowerOfTwo := Array.size_replicate
    rw [grown]
    exact ⟨Nat.isPowerOfTwo_nextPowerOfTwo _, Number.le_nextPowerOfTwo _⟩
  · next enough => exact ⟨power, (Number.le_nextPowerOfTwo _).trans (not_lt.mp enough)⟩

end LatentTopics.TopicCounter

namespace LatentTopics

def Document.topics (doc : Document) : Multiset Nat :=
  (doc.tokens.toList.map Token.topic : List Nat)

theorem Document.card_topics (doc : Document) : Multiset.card doc.topics = doc.size := by
  rw [topics, Multiset.coe_card, List.length_map, Array.length_toList, size]

theorem Document.card_topics_toFinset_le {doc : Document} {numTopics : Nat}
    (below : ∀ token ∈ doc.tokens, token.topic < numTopics) :
    doc.topics.toFinset.card ≤ min doc.size numTopics := by
  apply le_min
  · rw [← doc.card_topics]
    exact Multiset.toFinset_card_le _
  · rw [← Finset.card_range numTopics]
    apply Finset.card_le_card
    intro topic member
    rw [Multiset.mem_toFinset, topics, Multiset.mem_coe, List.mem_map] at member
    obtain ⟨token, inside, rfl⟩ := member
    exact Finset.mem_range.mpr (below token (Array.mem_toList_iff.mp inside))

/-- Counting a document afresh succeeds, and leaves room for the topics that its tokens can have. -/
theorem TopicCounter.rebuild_ok {counter : TopicCounter} (power : counter.capacity.isPowerOfTwo)
    {doc : Document} {numTopics : Nat} (below : ∀ token ∈ doc.tokens, token.topic < numTopics)
    (small : doc.size < 2147483648) :
    ∃ after, rebuild doc numTopics counter = .ok () after ∧ after.Tallies doc.topics ∧
      after.capacity.isPowerOfTwo ∧
      (doc.size ≠ 0 → min doc.size numTopics < after.capacity) := by
  obtain ⟨power, room⟩ := reserve_capacity power (min doc.size numTopics)
  have tallies := clear_tallies power
  rw [← clear_capacity] at power room
  have few := Document.card_topics_toFinset_le below
  have whole : ((doc.tokens.toList.map Token.topic : List Nat) : Multiset Nat) + 0 =
      doc.topics := add_zero _
  by_cases empty : doc.size = 0
  · have none : doc.tokens.toList = [] := by
      apply List.eq_nil_of_length_eq_zero
      rw [Array.length_toList]
      exact empty
    refine ⟨_, by rw [rebuild, none]; rfl, ?_, power, fun some => absurd empty some⟩
    rw [Document.topics, none]
    exact tallies
  · have positive : 0 < min doc.size numTopics := by
      apply lt_min (Nat.pos_of_ne_zero empty)
      obtain ⟨token, member⟩ := Array.exists_mem_of_size_pos (Nat.pos_of_ne_zero empty)
      exact Nat.zero_lt_of_lt (below token member)
    have spare :
        min doc.size numTopics < (counter.reserve (min doc.size numTopics)).clear.capacity := by
      omega
    obtain ⟨after, added, talliesAfter, size⟩ := tallies.addAll doc.tokens.toList
      (by rw [whole]; exact few.trans_lt spare)
        (by rw [Array.length_toList, Multiset.card_zero]; exact small)
    rw [whole] at talliesAfter
    exact ⟨after, added, talliesAfter, size ▸ power, fun _ => size ▸ spare⟩

end LatentTopics
