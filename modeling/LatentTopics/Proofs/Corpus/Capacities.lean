import Mathlib
import LatentTopics.Proofs.Corpus.TopicCounters
import LatentTopics.Proofs.Updates

/-! The capacity of a topic counter. Additions leave it as it is, also
those that fail, and counting a document afresh takes a power of two to
a power of two. So a counter can be used again after any failure. -/
namespace LatentTopics

namespace TopicCounter

theorem keeps_capacity (topic : Nat) (delta : Int) (capacity : Nat) :
    Update.Keeps (fun counter => counter.capacity = capacity) (add topic delta) := by
  rintro ⟨table⟩ rfl
  have size := Table.keeps_size ⟨0, table.slots.size⟩ topic delta table.slots.size table rfl
  rw [Update.left] at size ⊢
  simp only [add]
  cases added : Table.add ⟨0, table.slots.size⟩ topic delta table <;>
    · rw [added] at size
      exact size

theorem keeps_capacity_addAll (tokens : List Token) (capacity : Nat) :
    Update.Keeps (fun counter => counter.capacity = capacity) (addAll tokens) := by
  induction tokens with
  | nil => exact fun counter same => same
  | cons token tokens ih =>
      exact (keeps_capacity token.topic 1 capacity).followed ih (fun done => by rw [addAll, done])
        fun failed => by rw [addAll, failed]

theorem keeps_power (doc : Document) (numTopics : Nat) :
    Update.Keeps (fun counter => counter.capacity.isPowerOfTwo) (rebuild doc numTopics) := by
  intro counter power
  have reserved := (reserve_capacity power (min doc.size numTopics)).1
  rw [← clear_capacity] at reserved
  have same := keeps_capacity_addAll doc.tokens.toList _
    (counter.reserve (min doc.size numTopics)).clear rfl
  have left : Update.left (rebuild doc numTopics) counter =
      Update.left (addAll doc.tokens.toList) (counter.reserve (min doc.size numTopics)).clear := rfl
  rw [left]
  exact same ▸ reserved

end TopicCounter

end LatentTopics
