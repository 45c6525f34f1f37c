import Mathlib
import LatentTopics.Row.Arena
import LatentTopics.Proofs.Arrays
import LatentTopics.Proofs.Table.Addition

/-! Where the rows of an arena lie. A valid arena keeps every row inside its buffer and apart from
all others; pushing a row and clearing the arena keep it so. -/
namespace LatentTopics

def Layout.kind : Layout → RowKind
  | .dense _ => .dense
  | .sparse window _ => .sparse window.capacity

def Layout.Apart (numTopics : Nat) : Layout → Layout → Prop
  | .dense offset, .dense other => offset + numTopics ≤ other ∨ other + numTopics ≤ offset
  | .sparse window _, .sparse other _ =>
      window.base + window.capacity ≤ other.base ∨ other.base + other.capacity ≤ window.base
  | _, _ => True

theorem Layout.Apart.symm {numTopics : Nat} {layout other : Layout}
    (apart : Layout.Apart numTopics layout other) : Layout.Apart numTopics other layout := by
  cases layout <;> cases other
  · exact Or.symm apart
  · trivial
  · trivial
  · exact Or.symm apart

def RowKind.Legal : RowKind → Prop
  | .dense => True
  | .sparse capacity => capacity.isPowerOfTwo

namespace Arena

def Placed (arena : Arena) : Layout → Prop
  | .dense offset =>
      offset + arena.numTopics ≤ arena.cells.size ∧
        ∀ topic < arena.numTopics, Number.Int32Range (arena.cells.getD (offset + topic) 0)
  | .sparse window tombstones => Table.WellFormed window ⟨arena.slots, tombstones⟩

structure Valid (arena : Arena) : Prop where
  placed : ∀ (index : Nat) (layout : Layout), arena.layouts[index]? = some layout →
    Placed arena layout
  apart : ∀ (first second : Nat) (layout other : Layout), first ≠ second →
    arena.layouts[first]? = some layout →
    arena.layouts[second]? = some other → Layout.Apart arena.numTopics layout other

def kinds (arena : Arena) : Array RowKind :=
  arena.layouts.map Layout.kind

theorem empty_valid (numTopics : Nat) : Valid (empty numTopics) := by
  constructor
  · intro index layout here
    simp [empty] at here
  · intro first second layout other _ here
    simp [empty] at here

theorem get_of_layout {arena : Arena} {index : Nat} {layout : Layout}
    (here : arena.layouts[index]? = some layout) (topic : Nat) :
    arena.get index topic = (arena.readAs layout).get topic := by
  rw [get, here]

theorem get_of_none {arena : Arena} {index : Nat} (missing : arena.layouts[index]? = none)
    (topic : Nat) :
    arena.get index topic = 0 := by
  rw [get, missing]

section Push

variable {arena : Arena}

theorem push_numTopics (kind : RowKind) (arena : Arena) :
    (arena.push kind).numTopics = arena.numTopics := by
  cases kind <;> rfl

def pushed (arena : Arena) : RowKind → Layout
  | .dense => .dense arena.cells.size
  | .sparse capacity => .sparse ⟨arena.slots.size, capacity⟩ 0

theorem push_layouts (kind : RowKind) (arena : Arena) :
    (arena.push kind).layouts = arena.layouts.push (arena.pushed kind) := by
  cases kind <;> rfl

theorem Placed.push {layout : Layout} (placed : Placed arena layout) (kind : RowKind) :
    Placed (arena.push kind) layout ∧
      ∀ topic, ((arena.push kind).readAs layout).get topic = (arena.readAs layout).get topic := by
  cases layout with
  | dense offset =>
      cases kind with
      | dense =>
          have front : ∀ topic < arena.numTopics,
              (arena.cells ++ Array.replicate arena.numTopics 0).getD (offset + topic) 0 =
                arena.cells.getD (offset + topic) 0 := by
            intro topic below
            have := placed.1
            exact Arrays.getD_append_left _ _ _ (by omega)
          refine ⟨⟨?_, ?_⟩, ?_⟩
          · have := placed.1
            simp only [Arena.push, Array.size_append, Array.size_replicate]
            omega
          · intro topic below
            exact (front topic below) ▸ placed.2 topic below
          · intro topic
            simp only [readAs, Row.get, Arena.push]
            split
            · next below => exact front topic below
            · rfl
      | sparse capacity => exact ⟨placed, fun topic => rfl⟩
  -- Only a row of the same kind is pushed into the same buffer.
  | sparse window tombstones =>
      cases kind with
      | dense => exact ⟨placed, fun topic => rfl⟩
      | sparse capacity =>
          have fits := placed.sound.fits
          have alike :
              Table.Alike arena.slots window
              (arena.slots ++ Array.replicate capacity Slot.empty) window := by
            refine ⟨rfl, ?_⟩
            intro offset inside
            have : window.base + window.capacity ≤ arena.slots.size := fits
            exact Arrays.getD_append_left _ _ _ (by omega)
          have fits' :
              window.base + window.capacity ≤
              (arena.slots ++ Array.replicate capacity Slot.empty).size := by
            rw [Array.size_append]
            exact fits.trans (Nat.le_add_right _ _)
          exact ⟨placed.alike alike fits', fun topic => placed.sound.get_alike alike fits' topic⟩

theorem pushed_placed {kind : RowKind} (legal : kind.Legal) (arena : Arena) :
    Placed (arena.push kind) (arena.pushed kind) ∧
      ∀ topic, ((arena.push kind).readAs (arena.pushed kind)).get topic = 0 := by
  cases kind with
  | dense =>
      have zero : ∀ topic, (arena.cells ++ Array.replicate arena.numTopics 0).getD
          (arena.cells.size + topic) 0 = 0 :=
        fun topic => Arrays.getD_append_replicate _ _ _ (Nat.le_add_right _ _)
      refine ⟨⟨?_, ?_⟩, ?_⟩
      · simp [Arena.push]
      · intro topic below
        simp only [Arena.push, zero topic]
        exact Number.Int32Range.zero
      · intro topic
        simp only [readAs, Row.get, pushed, Arena.push, zero topic, ite_self]
  | sparse capacity =>
      have empty : ∀ offset < (Window.mk arena.slots.size capacity).capacity,
          (Window.mk arena.slots.size capacity).slot
            (arena.slots ++ Array.replicate capacity Slot.empty) offset = .empty :=
        fun offset _ => Arrays.getD_append_replicate _ _ _ (Nat.le_add_right _ _)
      have wellFormed : Table.WellFormed ⟨arena.slots.size, capacity⟩
          ⟨arena.slots ++ Array.replicate capacity Slot.empty, 0⟩ :=
        Table.wellFormed_of_empty (by simp) legal empty
      exact ⟨wellFormed, fun topic =>
        wellFormed.sound.get_of_absent (Table.absent_of_empty empty topic)⟩

theorem pushed_apart {layout : Layout} (placed : Placed arena layout) (kind : RowKind) :
    Layout.Apart arena.numTopics layout (arena.pushed kind) := by
  cases layout with
  | dense offset =>
      cases kind with
      | dense => exact Or.inl placed.1
      | sparse capacity => trivial
  | sparse window tombstones =>
      cases kind with
      | dense => trivial
      | sparse capacity => exact Or.inl placed.sound.fits

theorem Valid.push (valid : Valid arena) {kind : RowKind} (legal : kind.Legal) :
    Valid (arena.push kind) := by
  have cases : ∀ (index : Nat) (layout : Layout), (arena.push kind).layouts[index]? = some layout →
      arena.layouts[index]? = some layout ∨ index = arena.layouts.size ∧
        layout = arena.pushed kind := by
    intro index layout here
    rw [push_layouts, Array.getElem?_push] at here
    split at here
    · next last => exact Or.inr ⟨last, (Option.some.inj here).symm⟩
    · exact Or.inl here
  constructor
  · intro index layout here
    rcases cases index layout here with old | ⟨_, rfl⟩
    · exact ((valid.placed index layout old).push kind).1
    · exact (pushed_placed legal arena).1
  · intro first second layout other different here there
    rw [push_numTopics]
    rcases cases first layout here with old | ⟨last, rfl⟩
    · rcases cases second other there with old' | ⟨_, rfl⟩
      · exact valid.apart first second layout other different old old'
      · exact pushed_apart (valid.placed first layout old) kind
    · rcases cases second other there with old' | ⟨last', _⟩
      · exact (pushed_apart (valid.placed second other old') kind).symm
      · exact absurd (last.trans last'.symm) different

theorem Valid.get_push (valid : Valid arena) {kind : RowKind} (legal : kind.Legal)
    (index topic : Nat) :
    (arena.push kind).get index topic = arena.get index topic := by
  by_cases last : index = arena.layouts.size
  · have here : (arena.push kind).layouts[index]? = some (arena.pushed kind) := by
      rw [push_layouts, Array.getElem?_push, if_pos last]
    rw [get_of_layout here, (pushed_placed legal arena).2, get_of_none (by simp [last])]
  · have same : (arena.push kind).layouts[index]? = arena.layouts[index]? := by
      rw [push_layouts, Array.getElem?_push, if_neg last]
    cases layout : arena.layouts[index]? with
    | none => rw [get_of_none (same.trans layout), get_of_none layout]
    | some layout' =>
        rw [get_of_layout (same.trans layout), get_of_layout layout]
        exact ((valid.placed index layout' layout).push kind).2 topic

end Push

theorem ofKinds_spec (numTopics : Nat) (kinds : List RowKind) (legal : ∀ kind ∈ kinds, kind.Legal) :
    Valid (ofKinds numTopics kinds) ∧ (ofKinds numTopics kinds).numTopics = numTopics ∧
      (ofKinds numTopics kinds).kinds = kinds.toArray ∧
      ∀ index topic, (ofKinds numTopics kinds).get index topic = 0 := by
  induction kinds using List.reverseRecOn with
  | nil =>
      refine ⟨empty_valid numTopics, rfl, by simp [ofKinds, empty, kinds], ?_⟩
      intro index topic
      exact get_of_none (by simp [ofKinds, empty]) topic
  | append_singleton kinds kind ih =>
      obtain ⟨valid, topics, shape, zero⟩ :=
        ih fun other member => legal other (List.mem_append_left _ member)
      have last : kind.Legal := legal kind (by simp)
      have step : ofKinds numTopics (kinds ++ [kind]) = (ofKinds numTopics kinds).push kind := by
        rw [ofKinds, List.foldl_append]
        rfl
      have own : ((ofKinds numTopics kinds).pushed kind).kind = kind := by
        cases kind <;> rfl
      rw [step]
      refine ⟨valid.push last, (push_numTopics kind _).trans topics, ?_, ?_⟩
      · rw [Arena.kinds, push_layouts, Array.map_push, own, ← Arena.kinds, shape, List.push_toArray]
      · intro index topic
        rw [valid.get_push last, zero]

section Clear

variable {arena : Arena}

theorem Placed.clear {layout : Layout} (placed : Placed arena layout) :
    Placed arena.clear layout.cleared ∧
      ∀ topic, (arena.clear.readAs layout.cleared).get topic = 0 := by
  cases layout with
  | dense offset =>
      have zero : ∀ index, (Array.replicate arena.cells.size (0 : Int)).getD index 0 = 0 := by
        intro index
        exact Arrays.getD_replicate _ _ index
      refine ⟨⟨?_, ?_⟩, ?_⟩
      · simpa [Arena.clear] using placed.1
      · intro topic below
        simp only [Arena.clear, zero]
        exact Number.Int32Range.zero
      · intro topic
        simp only [Layout.cleared, readAs, Row.get, Arena.clear, zero, ite_self]
  | sparse window tombstones =>
      have empty : ∀ offset < window.capacity,
          window.slot (Array.replicate arena.slots.size Slot.empty) offset = .empty := by
        intro offset _
        exact Arrays.getD_replicate _ _ _
      have wellFormed : Table.WellFormed window ⟨Array.replicate arena.slots.size Slot.empty, 0⟩ :=
        Table.wellFormed_of_empty (by simpa using placed.sound.fits) placed.sound.power empty
      exact ⟨wellFormed, fun topic =>
        wellFormed.sound.get_of_absent (Table.absent_of_empty empty topic)⟩

theorem cleared_kind (layout : Layout) : layout.cleared.kind = layout.kind := by
  cases layout <;> rfl

theorem Valid.clear (valid : Valid arena) : Valid arena.clear := by
  have cases : ∀ (index : Nat) (layout : Layout), arena.clear.layouts[index]? = some layout →
      ∃ old, arena.layouts[index]? = some old ∧ layout = old.cleared := by
    intro index layout here
    simp only [Arena.clear, Array.getElem?_map, Option.map_eq_some_iff] at here
    obtain ⟨old, before, rfl⟩ := here
    exact ⟨old, before, rfl⟩
  constructor
  · intro index layout here
    obtain ⟨old, before, rfl⟩ := cases index layout here
    exact (valid.placed index old before).clear.1
  · intro first second layout other different here there
    obtain ⟨old, before, rfl⟩ := cases first layout here
    obtain ⟨old', before', rfl⟩ := cases second other there
    have apart := valid.apart first second old old' different before before'
    cases old <;> cases old' <;> exact apart

theorem kinds_clear (arena : Arena) : arena.clear.kinds = arena.kinds := by
  rw [kinds, Arena.clear, kinds, Array.map_map]
  congr 1
  funext layout
  exact cleared_kind layout

end Clear

end Arena

end LatentTopics
