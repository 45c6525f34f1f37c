import Mathlib
import LatentTopics.Row.Scratch
import LatentTopics.Proofs.Row.Addition

/-! Rebuilds through the shared buffer. What the buffer holds from
earlier rebuilds is not read, and pairs that are stored again always find
their slots, so that a row comes out as it does without a buffer. -/
namespace LatentTopics

namespace ScratchTable

open Table

variable {window : Window} {table : Table} {slots : Array Slot}

theorem restore_of_refills {entries : List (Nat × Int)} {after : Array Slot}
    (refills : Refills window slots entries after) :
    restore window entries slots = .ok () after := by
  induction refills with
  | done slots => rfl
  | @store slots after entry entries index free rest ih =>
      obtain ⟨topic, count⟩ := entry
      have vacant : probe slots window topic = .vacant index := free
      rw [restore, vacant]
      exact ih

theorem rehash_ok (sound : Sound slots window) (tombstones : Nat) (scratch : Array (Nat × Int)) :
    rehash window ⟨⟨slots, tombstones⟩, scratch⟩ =
      .ok () ⟨Table.rehash window ⟨slots, tombstones⟩, scratch.shrink 0 ++ live slots window⟩ := by
  have buffer : (scratch.shrink 0 ++ live slots window).toList = live slots window := by simp
  have stored := restore_of_refills (sound.refilled tombstones).1
  simp only [rehash, buffer, stored]
  rfl

theorem bury_ok (sound : Sound table.slots window) {offset : Nat}
    (inside : offset < window.capacity) (scratch : Array (Nat × Int)) :
    ∃ buffer, bury window (window.base + offset) ⟨table, scratch⟩ =
      .ok () ⟨Table.bury window (window.base + offset) table, buffer⟩ := by
  rw [bury, Table.bury]
  dsimp only
  split
  · exact ⟨_, rehash_ok (sound.bury inside) _ scratch⟩
  · exact ⟨scratch, rfl⟩

theorem add_agrees (wellFormed : WellFormed window table) (topic : Nat) (delta : Int)
    (scratch : Array (Nat × Int)) :
    Update.Agree (fun work plain => work.table = plain) (add window topic delta)
        (Table.add window topic delta)
      ⟨table, scratch⟩ table := by
  rcases wellFormed.sound.probe_cases topic with
    ⟨offset, count, inside, _, outcome⟩ | ⟨offset, _, _, _, _, outcome⟩ | ⟨_, _, outcome⟩
  · obtain ⟨buffer, buried⟩ := bury_ok wellFormed.sound inside scratch
    constructor
    · simp only [Update.refusal, add, Table.add, outcome, buried]
      split_ifs <;> rfl
    · simp only [Update.left, add, Table.add, outcome, buried]
      split_ifs <;> rfl
  · constructor
    · simp only [Update.refusal, add, Table.add, outcome]
      split_ifs <;> rfl
    · simp only [Update.left, add, Table.add, outcome]
      split_ifs <;> rfl
  · constructor
    · simp only [Update.refusal, add, Table.add, outcome]
    · simp only [Update.left, add, Table.add, outcome]

end ScratchTable

namespace ScratchArena

variable {index topic : Nat} {delta : Int} {state : ScratchArena}

theorem replace_self {arena : Arena} {window : Window} {tombstones : Nat}
    (here : arena.layouts[index]? = some (.sparse window tombstones))
    (scratch : Array (Nat × Int)) :
    (replace index window arena ⟨⟨arena.slots, tombstones⟩, scratch⟩).arena = arena := by
  have same : arena.layouts.setIfInBounds index (.sparse window tombstones) = arena.layouts := by
    apply Array.ext_getElem?
    intro other
    rw [Array.getElem?_setIfInBounds]
    split
    · next own => rw [← own, if_pos (Array.getElem?_eq_some_iff.mp here).1, here]
    · rfl
  rw [replace, same]

theorem add_agrees (valid : Arena.Valid state.arena) (index topic : Nat) (delta : Int) :
    Update.Agree (fun work plain => work.arena = plain) (add index topic delta)
        (Arena.add index topic delta)
      state state.arena := by
  obtain ⟨arena, scratch⟩ := state
  cases here : arena.layouts[index]? with
  | none =>
      constructor
      · simp only [Update.refusal, add, Arena.add, here]
      · simp only [Update.left, add, Arena.add, here]
  | some layout =>
      cases layout with
      | dense offset =>
          constructor
          · simp only [Update.refusal, add, Arena.add, here]
            cases Arena.addDense offset topic delta arena <;> rfl
          · simp only [Update.left, add, Arena.add, here]
            cases Arena.addDense offset topic delta arena <;> rfl
      | sparse window tombstones =>
          have placed : Table.WellFormed window ⟨arena.slots, tombstones⟩ :=
            valid.placed index _ here
          rcases (ScratchTable.add_agrees placed topic delta scratch).outcomes with
            ⟨_, work, _, after, done, done', rfl⟩ | ⟨fault, ⟨_, buffer⟩, after, failed,
              failed', rfl⟩
          · constructor
            · simp only [Update.refusal, add, Arena.add, Arena.addSparse, here, done, done']
            · simp only [Update.left, add, Arena.add, Arena.addSparse, here, done, done']
              rfl
          -- A failure changes nothing, and the table that is put back is the one that was there.
          · have same := Table.add_error failed'
            dsimp only at same
            subst same
            constructor
            · simp only [Update.refusal, add, Arena.add, Arena.addSparse, here, failed, failed']
            · simp only [Update.left, add, Arena.add, Arena.addSparse, here, failed, failed']
              exact replace_self here buffer

end ScratchArena

end LatentTopics
