import Mathlib
import LatentTopics.Proofs.Arrays
import LatentTopics.Proofs.Table.Chains

/-! What an addition does to a window. Slots change one at a time and never become empty, except
when the whole window is rebuilt, so that chains stay whole; no slot outside the window changes. -/
namespace LatentTopics

theorem Window.slot_set (window : Window) (slots : Array Slot) {offset : Nat}
    (inside : window.base + offset < slots.size) (slot : Slot) (other : Nat) :
    window.slot (slots.setIfInBounds (window.base + offset) slot) other =
      if other = offset then slot else window.slot slots other := by
  by_cases same : other = offset
  · subst same
    rw [if_pos rfl]
    exact Arrays.getD_set_self slots inside slot .empty
  · rw [if_neg same]
    exact Arrays.getD_set_ne slots (by omega) slot .empty

namespace Table

structure Outside (window : Window) (before after : Array Slot) : Prop where
  size : after.size = before.size
  slots : ∀ index, index < window.base ∨ window.base + window.capacity ≤ index →
    after.getD index .empty = before.getD index .empty

namespace Outside

variable {window : Window} {first second third : Array Slot}

theorem refl (window : Window) (slots : Array Slot) : Outside window slots slots :=
  ⟨rfl, fun _ _ => rfl⟩

theorem trans (before : Outside window first second) (after : Outside window second third) :
    Outside window first third :=
  ⟨after.size.trans before.size, fun index outer =>
    (after.slots index outer).trans (before.slots index outer)⟩

theorem set {offset : Nat} (inside : offset < window.capacity) (slots : Array Slot) (slot : Slot) :
    Outside window slots (slots.setIfInBounds (window.base + offset) slot) := by
  constructor
  · exact Array.size_setIfInBounds
  · intro index outer
    exact Arrays.getD_set_ne slots (by omega) slot .empty

end Outside

section Set

variable {slots : Array Slot} {window : Window}

/-- Where a topic may stand: its chain leads there, no other
slot has it, and no other topic is there. -/
structure Place (slots : Array Slot) (window : Window) (topic offset : Nat) : Prop where
  inside : offset < window.capacity
  reaches : Reaches slots window topic offset
  only : ∀ other < window.capacity, ∀ count, window.slot slots other = .occupied topic count →
    other = offset
  own : ∀ occupant count, window.slot slots offset = .occupied occupant count → occupant = topic

theorem Sound.place_of_found (sound : Sound slots window) {topic offset : Nat} {count : Int}
    (inside : offset < window.capacity) (here : window.slot slots offset = .occupied topic count) :
    Place slots window topic offset where
  inside := inside
  reaches := sound.chained offset inside topic count here
  only := fun other within held there =>
    sound.unique other within offset inside topic held count there here
  own := by
    intro occupant held there
    rw [here] at there
    exact (Slot.occupied.inj there).1.symm

theorem Sound.place_of_vacant {topic offset : Nat} (inside : offset < window.capacity)
    (absent : Absent slots window topic) (reaches : Reaches slots window topic offset)
    (free : window.slot slots offset = .empty ∨ window.slot slots offset = .tombstone) :
    Place slots window topic offset where
  inside := inside
  reaches := reaches
  only := fun other within count here => absurd ⟨other, within, here⟩ (absent count)
  own := by
    intro occupant count here
    rcases free with empty | tombstone
    · rw [empty] at here
      cases here
    · rw [tombstone] at here
      cases here

theorem Reaches.set {topic offset target : Nat} {slot : Slot}
    (fits : window.base + offset < slots.size) (filled : slot ≠ .empty)
    (reaches : Reaches slots window topic target) :
    Reaches (slots.setIfInBounds (window.base + offset) slot) window topic target := by
  obtain ⟨steps, within, reached, chain⟩ := reaches
  refine ⟨steps, within, reached, ?_⟩
  intro earlier before
  rw [visited, Window.slot_set window slots fits]
  split
  · exact filled
  · exact chain earlier before

theorem holds_set {topic offset : Nat} {count : Int} {slot : Slot}
    (fits : window.base + offset < slots.size) (inside : offset < window.capacity) :
    Holds (slots.setIfInBounds (window.base + offset) slot) window topic count ↔
      slot = .occupied topic count ∨
        ∃ other < window.capacity, other ≠ offset ∧
        window.slot slots other = .occupied topic count := by
  simp only [Holds, Window.slot_set window slots fits]
  constructor
  · rintro ⟨other, within, here⟩
    by_cases same : other = offset
    · rw [if_pos same] at here
      exact Or.inl here
    · rw [if_neg same] at here
      exact Or.inr ⟨other, within, same, here⟩
  · rintro (here | ⟨other, within, different, here⟩)
    · exact ⟨offset, inside, by rw [if_pos rfl, here]⟩
    · exact ⟨other, within, by rw [if_neg different, here]⟩

/-- A slot that is not made empty breaks no chain. -/
theorem Sound.set (sound : Sound slots window) {offset : Nat} (inside : offset < window.capacity)
    {slot : Slot} (filled : slot ≠ .empty)
    (placed : ∀ topic count, slot = .occupied topic count →
      Place slots window topic offset ∧ count ≠ 0 ∧ Number.Int32Range count) :
    Sound (slots.setIfInBounds (window.base + offset) slot) window := by
  have fits := sound.slot_lt inside
  constructor
  · rw [Array.size_setIfInBounds]
    exact sound.fits
  · exact sound.power
  · intro target within topic count here
    apply Reaches.set fits filled
    rw [Window.slot_set window slots fits] at here
    split at here
    · next same =>
      subst same
      exact (placed topic count here).1.reaches
    · exact sound.chained target within topic count here
  -- Of two slots with one topic the changed one is at most
  -- one, and it is where the topic may stand.
  · intro first firstIn second secondIn topic count other here there
    rw [Window.slot_set window slots fits] at here there
    split at here
    · next same =>
      split at there
      · next same' => rw [same, same']
      · rw [same]
        exact ((placed topic count here).1.only second secondIn other there).symm
    · split at there
      · next same' =>
        rw [same']
        exact (placed topic other there).1.only first firstIn count here
      · exact sound.unique first firstIn second secondIn topic count other here there
  · intro topic count holds
    rcases (holds_set fits inside).mp holds with here | ⟨other, within, _, here⟩
    · exact (placed topic count here).2
    · exact sound.stored topic count ⟨other, within, here⟩

theorem Sound.get_eq (sound : Sound slots window) {topic : Nat} {count : Int}
    (held : ∀ other, Holds slots window topic other ↔ other = count ∧ count ≠ 0) :
    get slots window topic = count := by
  by_cases zero : count = 0
  · rw [zero]
    apply sound.get_of_absent
    intro other holds
    exact ((held other).mp holds).2 zero
  · exact sound.get_of_holds ((held count).mpr ⟨rfl, zero⟩)

theorem Sound.get_congr {slots' : Array Slot} (sound : Sound slots window)
    (sound' : Sound slots' window) {topic : Nat}
    (held : ∀ count, Holds slots' window topic count ↔ Holds slots window topic count) :
    get slots' window topic = get slots window topic := by
  apply sound'.get_eq
  intro other
  rw [held, sound.holds_iff]
  constructor
  · rintro ⟨nonzero, rfl⟩
    exact ⟨rfl, nonzero⟩
  · rintro ⟨rfl, nonzero⟩
    exact ⟨nonzero, rfl⟩

end Set

def tombs (slots : Array Slot) (window : Window) : Finset Nat :=
  (Finset.range window.capacity).filter fun offset => window.slot slots offset = .tombstone

structure WellFormed (window : Window) (table : Table) : Prop where
  sound : Sound table.slots window
  tally : table.tombstones = (tombs table.slots window).card
  few : table.tombstones * tombstoneRatio ≤ window.capacity

structure Assigns (window : Window) (topic : Nat) (count : Int) (before after : Table) : Prop where
  wellFormed : WellFormed window after
  counts : ∀ other, get after.slots window other =
    if other = topic then count else get before.slots window other
  outside : Outside window before.slots after.slots

section Tombs

variable {slots : Array Slot} {window : Window} {offset : Nat}

theorem tombs_bury (fits : window.base + offset < slots.size) (inside : offset < window.capacity) :
    tombs (slots.setIfInBounds (window.base + offset) .tombstone) window =
      insert offset (tombs slots window) := by
  ext other
  rw [Finset.mem_insert]
  simp only [tombs, Finset.mem_filter, Finset.mem_range, Window.slot_set window slots fits]
  by_cases same : other = offset
  · subst same
    simp [inside]
  · simp [same]

theorem tombs_fill (fits : window.base + offset < slots.size) {slot : Slot}
    (filled : slot ≠ .tombstone) :
    tombs (slots.setIfInBounds (window.base + offset) slot) window =
        (tombs slots window).erase offset := by
  ext other
  rw [Finset.mem_erase]
  simp only [tombs, Finset.mem_filter, Finset.mem_range, Window.slot_set window slots fits]
  by_cases same : other = offset
  · subst same
    simp [filled]
  · simp [same]

theorem not_mem_tombs (here : window.slot slots offset ≠ .tombstone) :
    offset ∉ tombs slots window := by
  simp [tombs, here]

end Tombs

section Occupy

variable {window : Window} {table : Table} {topic offset : Nat} {count : Int}

theorem get_set_occupied (wellFormed : WellFormed window table)
    (place : Place table.slots window topic offset) (nonzero : count ≠ 0)
    (range : Number.Int32Range count) (other : Nat) :
    get (table.slots.setIfInBounds (window.base + offset) (.occupied topic count)) window other =
      if other = topic then count else get table.slots window other := by
  have sound := wellFormed.sound
  have fits := sound.slot_lt place.inside
  have after :
      Sound (table.slots.setIfInBounds (window.base + offset) (.occupied topic count)) window := by
    apply sound.set place.inside (by simp)
    intro occupant held same
    cases same
    exact ⟨place, nonzero, range⟩
  split
  · next same =>
    subst same
    exact after.get_of_holds ((holds_set fits place.inside).mpr (Or.inl rfl))
  · next different =>
    -- The slot was free or had this topic before, so that no other topic loses its own.
    apply sound.get_congr after
    intro held
    rw [holds_set fits place.inside]
    constructor
    · rintro (here | ⟨slot, within, _, here⟩)
      · exact absurd (Slot.occupied.inj here).1.symm different
      · exact ⟨slot, within, here⟩
    · rintro ⟨slot, within, here⟩
      refine Or.inr ⟨slot, within, ?_, here⟩
      rintro rfl
      exact different (place.own other held here)

theorem occupy_eq (table : Table) (index topic : Nat) (count : Int) :
    occupy index topic count table =
      ⟨table.slots.setIfInBounds index (.occupied topic count),
        if table.slots.getD index .empty = .tombstone then table.tombstones - 1
        else table.tombstones⟩ := by
  rw [occupy]
  cases table.slots.getD index .empty <;> rfl

theorem WellFormed.occupy (wellFormed : WellFormed window table)
    (place : Place table.slots window topic offset) (nonzero : count ≠ 0)
    (range : Number.Int32Range count) :
    Assigns window topic count table (occupy (window.base + offset) topic count table) := by
  have fits := wellFormed.sound.slot_lt place.inside
  rw [occupy_eq]
  constructor
  · constructor
    · apply wellFormed.sound.set place.inside (by simp)
      intro occupant held same
      cases same
      exact ⟨place, nonzero, range⟩
    -- The tally falls just when the slot was a tombstone.
    · have here : table.slots.getD (window.base + offset) .empty = window.slot table.slots offset :=
        rfl
      simp only [tombs_fill fits (show Slot.occupied topic count ≠ .tombstone by simp), here]
      split
      · next tombstone =>
        have member : offset ∈ tombs table.slots window := by
          simp [tombs, place.inside, tombstone]
        rw [Finset.card_erase_of_mem member, wellFormed.tally]
      · next other =>
        rw [Finset.erase_eq_of_notMem (not_mem_tombs other), wellFormed.tally]
    · refine le_trans (Nat.mul_le_mul_right _ ?_) wellFormed.few
      generalize table.slots.getD (window.base + offset) .empty = slot
      dsimp only
      split
      · exact Nat.sub_le _ 1
      · exact le_rfl
  · exact get_set_occupied wellFormed place nonzero range
  · exact Outside.set place.inside _ _

end Occupy

end Table

end LatentTopics
