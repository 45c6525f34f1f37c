import Mathlib
import LatentTopics.Proofs.Counts.Operations

/-! What slices use. The arena of a slice is as large as the kinds of
its words ask for, and whatever is added to its counts or fails to be,
and however often they are dropped, it never gets larger or smaller. -/
namespace LatentTopics

namespace Arena

/-- Memory in cells: one for a count of a dense row, two for a slot. -/
def usage (arena : Arena) : Nat :=
  arena.cells.size + 2 * arena.slots.size

theorem usage_push (kind : RowKind) (arena : Arena) :
    (arena.push kind).usage = arena.usage + kind.cells arena.numTopics := by
  cases kind with
  | dense =>
      simp only [usage, push, Array.size_append, Array.size_replicate, RowKind.cells]
      omega
  | sparse capacity =>
      simp only [usage, push, Array.size_append, Array.size_replicate, RowKind.cells]
      omega

theorem usage_ofKinds (numTopics : Nat) (kinds : List RowKind) :
    (ofKinds numTopics kinds).usage = (kinds.map (RowKind.cells numTopics)).sum := by
  have general : ∀ arena : Arena, (kinds.foldl (fun arena kind => arena.push kind) arena).usage =
      arena.usage + (kinds.map (RowKind.cells arena.numTopics)).sum := by
    induction kinds with
    | nil => exact fun arena => rfl
    | cons kind kinds ih =>
        intro arena
        rw [List.foldl_cons, ih, usage_push, push_numTopics, List.map_cons, List.sum_cons,
          Nat.add_assoc]
  rw [ofKinds, general]
  exact Nat.zero_add _

theorem keeps_usage (index topic : Nat) (delta : Int) (usage : Nat) :
    Update.Keeps (fun arena => arena.usage = usage) (add index topic delta) := by
  rintro ⟨numTopics, cells, slots, layouts⟩ rfl
  cases here : layouts[index]? with
  | none => simp only [Update.left, add, here]
  | some layout =>
      cases layout with
      | dense offset =>
          simp only [Update.left, add, here, addDense]
          by_cases below : topic < numTopics
          · by_cases negative : cells.getD (offset + topic) 0 + delta < 0
            · simp only [if_pos below, if_pos negative]
            · simp only [if_pos below, if_neg negative, Arena.usage, Array.size_setIfInBounds]
          · simp only [if_neg below]
      | sparse window tombstones =>
          have size := Table.keeps_size window topic delta slots.size ⟨slots, tombstones⟩ rfl
          simp only [Update.left, add, here, addSparse] at size ⊢
          cases added : Table.add window topic delta ⟨slots, tombstones⟩ <;>
            · simp only [added] at size ⊢
              simp only [Arena.usage, size]

theorem usage_clear (arena : Arena) : arena.clear.usage = arena.usage := by
  simp only [usage, clear, Array.size_replicate]

end Arena

namespace Slice

def usage (slice : Slice) : Nat :=
  slice.arena.usage

theorem keeps_usage (word topic : Nat) (delta : Int) (usage : Nat) :
    Update.Keeps (fun slice => slice.usage = usage) (add word topic delta) := by
  rintro ⟨id, words, arena⟩ rfl
  cases found : Search.find? words word with
  | none => simp only [Update.left, add, found]
  | some index =>
      have kept := Arena.keeps_usage index topic delta arena.usage arena rfl
      simp only [Update.left, add, found] at kept ⊢
      cases added : Arena.add index topic delta arena <;>
        · simp only [added] at kept ⊢
          exact kept

end Slice

namespace Store

variable {vocab : Vocabulary} {store : Store}

section Every

variable {P : Nat → Slice → Prop}

theorem every_updateSlice {α : Type}
    (every : ∀ (id : Nat) (slice : Slice), store.slices[id]? = some slice → P id slice)
    {number : Nat} {step : Update Slice α} (keeps : Update.Keeps (P number) step) {id : Nat}
    {slice : Slice}
    (here : (Update.left (updateSlice number step) store).slices[id]? = some slice) :
    P id slice := by
  cases there : store.slices[number]? with
  | none =>
      have outside : ¬ number < store.slices.size :=
        Nat.not_lt.mpr (Array.getElem?_eq_none_iff.mp there)
      simp only [Update.left, updateSlice, dif_neg outside] at here
      exact every id slice here
  | some old =>
      rw [left_updateSlice there] at here
      rcases Arrays.getElem?_set_cases (Array.getElem?_eq_some_iff.mp there).1 here with ⟨rfl,
        rfl⟩ | ⟨_, same⟩
      · exact keeps old (every _ old there)
      · exact every id slice same

/-- What holds of new slices, and is kept by additions and
by clearing, holds of all slices that can be reached. -/
theorem Reachable.every (fresh : ∀ (id : Nat) (run : SliceMeta), vocab.slices[id]? = some run →
      P id (.ofVocabulary vocab run))
    (adds : ∀ (id word topic : Nat) (delta : Int), Update.Keeps (P id) (Slice.add word topic delta))
    (clears : ∀ (id : Nat) (slice : Slice), P id slice → P id slice.clear)
    (reached : Reachable vocab store) {id : Nat} {slice : Slice}
    (here : store.slices[id]? = some slice) : P id slice := by
  induction reached generalizing id slice with
  | fresh =>
      rw [ofVocabulary, Array.getElem?_map, Option.map_eq_some_iff] at here
      obtain ⟨run, there, rfl⟩ := here
      exact fresh id run there
  | count reached other word topic range ih =>
      exact every_updateSlice (fun _ _ there => ih there) (adds other word topic _) here
  | @total store reached topic delta ih =>
      have same : (Update.left (updateSummary (Summary.add topic delta)) store).slices[id]? =
          some slice := here
      rw [left_updateSummary] at same
      exact ih same
  | clear reached other ih =>
      have cleared : Update.Keeps (P other) fun slice => .ok () slice.clear :=
        fun slice holds => clears other slice holds
      exact every_updateSlice (fun _ _ there => ih there) cleared here

end Every

theorem Reachable.usage (reached : Reachable vocab store) {id : Nat} {run : SliceMeta}
    {slice : Slice} (there : vocab.slices[id]? = some run) (here : store.slices[id]? = some slice) :
    slice.usage = ((vocab.sliceWords run).map fun entry =>
        entry.kind.cells vocab.numTopics).sum := by
  have planned : ∀ run, vocab.slices[id]? = some run →
      slice.usage = ((vocab.sliceWords run).map fun entry =>
        entry.kind.cells vocab.numTopics).sum := by
    refine Reachable.every (P := fun id slice => ∀ run, vocab.slices[id]? = some run →
      slice.usage = ((vocab.sliceWords run).map fun entry => entry.kind.cells vocab.numTopics).sum)
      ?_ ?_ ?_ reached here
    · intro id run found other same
      rw [found] at same
      obtain rfl := Option.some.inj same
      rw [Slice.usage, Slice.ofVocabulary, Arena.usage_ofKinds, List.map_map]
      rfl
    · intro id word topic delta slice usage run found
      exact Slice.keeps_usage word topic delta _ slice (usage run found)
    · intro id slice usage run found
      exact (Arena.usage_clear slice.arena).trans (usage run found)
  exact planned run there

end Store

end LatentTopics
