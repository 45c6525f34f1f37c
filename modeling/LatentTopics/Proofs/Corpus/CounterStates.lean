import Mathlib
import LatentTopics.Proofs.Corpus.TopicCounters
import LatentTopics.Proofs.Ledgers

/-! The states that a counter can be in. Whatever is done to it,
and whether it succeeds or not, its table stays in order. -/
namespace LatentTopics

namespace TopicCounter

/-- What may be done to a counter. Whatever fails is left as it is. -/
inductive Used : TopicCounter → Prop where
  | new (capacity : Nat) : Used (ofCapacity capacity)
  | add {counter : TopicCounter} (used : Used counter) (topic : Nat) {delta : Int}
      (range : Number.Int32Range delta) :
      Used (Update.left (TopicCounter.add topic delta) counter)
  | clear {counter : TopicCounter} (used : Used counter) : Used counter.clear
  | reserve {counter : TopicCounter} (used : Used counter) (distinct : Nat) :
      Used (counter.reserve distinct)
  | rebuild {counter : TopicCounter} (used : Used counter) (doc : Document) (numTopics : Nat) :
      Used (Update.left (TopicCounter.rebuild doc numTopics) counter)

def WellFormed (counter : TopicCounter) : Prop :=
  Table.WellFormed counter.window counter.table

def Takes (counter : TopicCounter) (topic : Nat) : Prop :=
  Table.HasRoom counter.table.slots counter.window topic

variable {counter : TopicCounter} {topic : Nat} {delta : Int}

theorem WellFormed.capacity_power (wellFormed : counter.WellFormed) :
    counter.capacity.isPowerOfTwo :=
  Table.WellFormed.sound wellFormed |>.power

theorem WellFormed.add_cases (wellFormed : counter.WellFormed) (topic : Nat)
    (range : Number.Int32Range delta) :
    (∃ after, TopicCounter.add topic delta counter = .ok () after ∧ after.WellFormed ∧
      counter.Takes topic ∧ 0 ≤ counter.get topic + delta ∧
      ∀ other, after.get other =
        if other = topic then Number.narrow (counter.get topic + delta)
        else counter.get other) ∨
      ∃ fault, TopicCounter.add topic delta counter = .error fault counter ∧
        (counter.Takes topic → counter.get topic + delta < 0) := by
  rcases Table.WellFormed.add_outcome wellFormed topic range with
    ⟨table, added, room, nonneg, assigns⟩ | ⟨fault, refused, reason⟩
  · have step : Table.add ⟨0, counter.table.slots.size⟩ topic delta counter.table =
        .ok () table := added
    have size : table.slots.size = counter.table.slots.size := assigns.outside.size
    have same : (⟨table⟩ : TopicCounter).window = counter.window := by
      simp only [window, capacity, size]
    refine Or.inl ⟨⟨table⟩, by simp only [TopicCounter.add, step], ?_, room, nonneg, ?_⟩
    · rw [WellFormed, same]
      exact assigns.wellFormed
    · intro other
      simp only [get, same]
      exact assigns.counts other
  · have step : Table.add ⟨0, counter.table.slots.size⟩ topic delta counter.table =
        .error fault counter.table := refused
    exact Or.inr ⟨fault, by simp only [TopicCounter.add, step], reason⟩

theorem keeps_wellFormed (topic : Nat) (range : Number.Int32Range delta) :
    Update.Keeps WellFormed (TopicCounter.add topic delta) := by
  refine .of_outcomes fun counter wellFormed => ?_
  rcases wellFormed.add_cases topic range with ⟨after, added, kept, _⟩ | ⟨fault, refused, _⟩
  · exact .inl ⟨(), after, added, kept⟩
  · exact .inr ⟨fault, refused⟩

theorem keeps_wellFormed_addAll (tokens : List Token) :
    Update.Keeps WellFormed (addAll tokens) := by
  induction tokens with
  | nil => exact fun counter wellFormed => wellFormed
  | cons token tokens ih =>
      have one : Number.Int32Range 1 := ⟨by decide, by decide⟩
      exact (keeps_wellFormed token.topic one).followed ih (fun done => by rw [addAll, done])
        fun failed => by rw [addAll, failed]

theorem wellFormed_clear (power : counter.capacity.isPowerOfTwo) : counter.clear.WellFormed :=
  (clear_tallies power).wellFormed

theorem Used.wellFormed (used : Used counter) : counter.WellFormed := by
  induction used with
  | new capacity =>
      have size : (ofCapacity capacity).capacity = capacity.nextPowerOfTwo := Array.size_replicate
      have fresh : (ofCapacity capacity).clear = ofCapacity capacity := by
        rw [TopicCounter.clear, size, ofCapacity]
      rw [← fresh]
      exact wellFormed_clear (size ▸ Nat.isPowerOfTwo_nextPowerOfTwo capacity)
  | add used topic range ih => exact keeps_wellFormed topic range _ ih
  | clear used ih => exact wellFormed_clear ih.capacity_power
  | @reserve counter used distinct ih =>
      have power := (reserve_capacity ih.capacity_power distinct).1
      rw [TopicCounter.reserve] at power ⊢
      split at power
      -- A counter that grows is one that was cleared.
      · next grows =>
        rw [if_pos grows]
        have size :
            (⟨⟨Array.replicate (2 * distinct).nextPowerOfTwo .empty, 0⟩⟩ : TopicCounter).capacity =
            (2 * distinct).nextPowerOfTwo := Array.size_replicate
        have fresh := wellFormed_clear power
        rwa [TopicCounter.clear, size] at fresh
      · next large =>
        rw [if_neg large]
        exact ih
  | rebuild used doc numTopics ih =>
      have power := (reserve_capacity ih.capacity_power (min doc.size numTopics)).1
      exact keeps_wellFormed_addAll doc.tokens.toList _ (wellFormed_clear power)

theorem WellFormed.settles (wellFormed : counter.WellFormed) (topic : Nat)
    (range : Number.Int32Range delta) :
    Settles Number.narrow TopicCounter.get Takes topic delta (TopicCounter.add topic delta)
        counter := by
  rcases wellFormed.add_cases topic range with ⟨after, added, _, taken, nonneg, counts⟩ | ⟨fault,
    refused, reason⟩
  · refine .stored after added taken nonneg ?_ ?_
    · rw [counts, if_pos rfl]
    · intro other different
      rw [counts, if_neg different]
  · exact .refused fault refused reason

theorem WellFormed.get_range (wellFormed : counter.WellFormed) (topic : Nat) :
    Number.Int32Range (counter.get topic) :=
  Table.WellFormed.sound wellFormed |>.get_range topic

theorem Used.narrows (used : Used counter) :
    Narrows TopicCounter.get Takes TopicCounter.add counter :=
  .of_settles used.wellFormed (fun topic _ range => keeps_wellFormed topic range)
    (fun _ topic _ wellFormed range => wellFormed.settles topic range) fun _ topic wellFormed =>
      wellFormed.get_range topic

end TopicCounter

end LatentTopics
