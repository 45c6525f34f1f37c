import Mathlib
import LatentTopics.Proofs.Table.Updates

/-! Rebuilding a window. Its entries are taken out and stored again one by one; an entry that is not
stored yet always finds a slot, because fewer topics than slots are. -/
namespace LatentTopics.Table

variable {window : Window} {slots : Array Slot} {table : Table}

theorem clear_getD (slots : Array Slot) (window : Window) (index : Nat) :
    (clear slots window).getD index .empty =
      if window.base ≤ index ∧ index < window.base + window.capacity then .empty
      else slots.getD index .empty := by
  have general : ∀ indices : List Nat,
      (indices.foldl (fun slots index => slots.setIfInBounds index Slot.empty) slots).getD
        index .empty =
        if index ∈ indices then .empty else slots.getD index .empty := by
    intro indices
    induction indices using List.reverseRecOn with
    | nil => simp
    | append_singleton indices last ih =>
        simp only [List.foldl_append, List.foldl_cons, List.foldl_nil, List.mem_append,
          List.mem_singleton]
        rw [Array.getD_eq_getD_getElem?, Array.getElem?_setIfInBounds]
        by_cases same : last = index
        · subst same
          simp only [if_true, or_true]
          split <;> rfl
        · rw [if_neg same, ← Array.getD_eq_getD_getElem?, ih]
          simp [Ne.symm same]
  rw [clear, general]
  simp only [List.mem_range'_1]

theorem clear_size (slots : Array Slot) (window : Window) :
    (clear slots window).size = slots.size := by
  rw [clear]
  generalize List.range' window.base window.capacity = indices
  induction indices using List.reverseRecOn with
  | nil => rfl
  | append_singleton indices last ih => simp [List.foldl_append, ih]

theorem clear_slot {offset : Nat} (inside : offset < window.capacity) :
    window.slot (clear slots window) offset = .empty := by
  rw [Window.slot, clear_getD, if_pos ⟨by omega, by omega⟩]

theorem clear_outside (window : Window) (slots : Array Slot) :
    Outside window slots (clear slots window) := by
  constructor
  · exact clear_size slots window
  · intro index outer
    rw [clear_getD, if_neg (by omega)]

theorem wellFormed_of_empty (fits : window.base + window.capacity ≤ slots.size)
    (power : window.capacity.isPowerOfTwo)
    (empty : ∀ offset < window.capacity, window.slot slots offset = .empty) :
    WellFormed window ⟨slots, 0⟩ := by
  constructor
  · constructor
    · exact fits
    · exact power
    · intro offset inside topic count here
      rw [empty offset inside] at here
      cases here
    · intro first firstIn second secondIn topic count other here
      rw [empty first firstIn] at here
      cases here
    · rintro topic count ⟨offset, inside, here⟩
      rw [empty offset inside] at here
      cases here
  · symm
    rw [Finset.card_eq_zero, tombs, Finset.filter_eq_empty_iff]
    intro offset inside here
    rw [empty offset (Finset.mem_range.mp inside)] at here
    cases here
  · simp

theorem absent_of_empty (empty : ∀ offset < window.capacity, window.slot slots offset = .empty)
    (topic : Nat) : Absent slots window topic := by
  rintro count ⟨offset, inside, here⟩
  rw [empty offset inside] at here
  cases here

/-- A part of the entries, `stored`, stands in the window. -/
structure Stored (window : Window) (slots : Array Slot) (stored : List (Nat × Int)) : Prop where
  wellFormed : WellFormed window ⟨slots, 0⟩
  holds : ∀ topic count, Holds slots window topic count ↔ (topic, count) ∈ stored

theorem Stored.live_length_le {stored : List (Nat × Int)} (part : Stored window slots stored) :
    (live slots window).length ≤ stored.length := by
  apply List.Subperm.length_le
  apply (live_nodup part.wellFormed.sound).subperm
  rintro ⟨topic, count⟩ member
  exact (part.holds topic count).mp ((mem_live topic count).mp member)

/-- The search for a new topic ends in a free slot: in an occupied one the topic would not be new,
and a full window would hold more entries than were stored. -/
theorem Stored.exists_vacant {stored : List (Nat × Int)} (part : Stored window slots stored)
    {topic : Nat} (few : stored.length < window.capacity) (fresh : topic ∉ stored.map Prod.fst) :
    ∃ offset < window.capacity, Absent slots window topic ∧
      (window.slot slots offset = .empty ∨ window.slot slots offset = .tombstone) ∧
      Reaches slots window topic offset ∧
      probe slots window topic = .vacant (window.base + offset) := by
  have sound : Sound slots window := part.wellFormed.sound
  have absent : Absent slots window topic := by
    intro count holds
    exact fresh (List.mem_map.mpr ⟨_, (part.holds topic count).mp holds, rfl⟩)
  rcases sound.probe_cases topic with ⟨offset, count, inside, here, _⟩ | vacant | ⟨_, full, _⟩
  · exact absurd ⟨offset, inside, here⟩ (absent count)
  · exact vacant
  · have := part.live_length_le
    omega

theorem Stored.insertNew {stored : List (Nat × Int)} (part : Stored window slots stored)
    (entry : Nat × Int) (few : stored.length < window.capacity)
    (fresh : entry.1 ∉ stored.map Prod.fst) (nonzero : entry.2 ≠ 0)
    (range : Number.Int32Range entry.2) :
    Stored window (insertNew window slots entry) (stored ++ [entry]) ∧
      Outside window slots (insertNew window slots entry) := by
  have sound : Sound slots window := part.wellFormed.sound
  obtain ⟨offset, inside, absent, free, reaches, outcome⟩ := part.exists_vacant few fresh
  have place := Sound.place_of_vacant inside absent reaches free
  have fits := sound.slot_lt inside
  have assigns := part.wellFormed.occupy place nonzero range
  rw [Table.insertNew, outcome]
  rw [occupy_eq] at assigns
  simp only [Nat.zero_sub, ite_self] at assigns
  refine ⟨⟨assigns.wellFormed, ?_⟩, assigns.outside⟩
  intro topic count
  have own : window.slot slots offset ≠ .occupied topic count := by
    rcases free with empty | tombstone
    · simp [empty]
    · simp [tombstone]
  rw [holds_set fits inside, List.mem_append, ← part.holds, List.mem_singleton, or_comm]
  apply or_congr
  · constructor
    · rintro ⟨other, within, _, here⟩
      exact ⟨other, within, here⟩
    · rintro ⟨other, within, here⟩
      refine ⟨other, within, ?_, here⟩
      rintro rfl
      exact own here
  · rw [Slot.occupied.injEq, Prod.ext_iff]
    exact and_congr eq_comm eq_comm

/-- Entries are stored one after another, each in a free
slot in which the search for its topic ends. -/
inductive Refills (window : Window) : Array Slot → List (Nat × Int) → Array Slot → Prop where
  | done (slots : Array Slot) : Refills window slots [] slots
  | store {slots after : Array Slot} {entry : Nat × Int} {entries : List (Nat × Int)} {index : Nat}
      (free : probe slots window entry.1 = .vacant index)
      (rest : Refills window (slots.setIfInBounds index (.occupied entry.1 entry.2))
        entries after) :
      Refills window slots (entry :: entries) after

theorem Stored.foldl_insertNew (entries : List (Nat × Int)) {stored : List (Nat × Int)}
    (part : Stored window slots stored) (few : (stored ++ entries).length ≤ window.capacity)
    (fresh : ((stored ++ entries).map Prod.fst).Nodup)
    (storable : ∀ entry ∈ entries, entry.2 ≠ 0 ∧ Number.Int32Range entry.2) :
    Refills window slots entries (entries.foldl (Table.insertNew window) slots) ∧
      Stored window (entries.foldl (Table.insertNew window) slots) (stored ++ entries) ∧
      Outside window slots (entries.foldl (Table.insertNew window) slots) := by
  induction entries generalizing slots stored with
  | nil => exact ⟨.done slots, by simpa using part, Outside.refl window slots⟩
  | cons entry entries ih =>
      obtain ⟨nonzero, range⟩ := storable entry List.mem_cons_self
      have room : stored.length < window.capacity := by
        simp only [List.length_append, List.length_cons] at few
        omega
      have new : entry.1 ∉ stored.map Prod.fst := by
        rw [List.map_append, List.nodup_append] at fresh
        intro member
        exact fresh.2.2 _ member _ (by simp) rfl
      obtain ⟨offset, _, _, _, _, outcome⟩ := part.exists_vacant room new
      obtain ⟨next, outside⟩ := part.insertNew entry room new nonzero range
      have shape : stored ++ entry :: entries = (stored ++ [entry]) ++ entries := by simp
      rw [shape] at few fresh ⊢
      obtain ⟨refills, rest, outside'⟩ := ih next few fresh fun other member =>
        storable other (List.mem_cons_of_mem entry member)
      refine ⟨?_, rest, outside.trans outside'⟩
      rw [List.foldl_cons]
      apply Refills.store outcome
      rwa [Table.insertNew, outcome] at refills ⊢

theorem Sound.stored_clear (sound : Sound slots window) :
    Stored window (clear slots window) [] := by
  have empty : ∀ offset < window.capacity, window.slot (clear slots window) offset = .empty :=
    fun _ inside => clear_slot inside
  constructor
  · exact wellFormed_of_empty (by rw [clear_size]; exact sound.fits) sound.power empty
  · intro topic count
    simp only [List.not_mem_nil, iff_false]
    exact absent_of_empty empty topic count

theorem Sound.storable (sound : Sound slots window) :
    ∀ entry ∈ live slots window, entry.2 ≠ 0 ∧ Number.Int32Range entry.2 := by
  intro entry member
  exact sound.stored entry.1 entry.2 ((mem_live entry.1 entry.2).mp member)

theorem Sound.refilled (sound : Sound slots window) (tombstones : Nat) :
    Refills window (clear slots window) (live slots window)
        (rehash window ⟨slots, tombstones⟩).slots ∧
      Stored window (rehash window ⟨slots, tombstones⟩).slots (live slots window) ∧
      Outside window (clear slots window) (rehash window ⟨slots, tombstones⟩).slots :=
  sound.stored_clear.foldl_insertNew (live slots window) length_live_le (live_topics_nodup sound)
    sound.storable

theorem Sound.rehash (sound : Sound slots window) (tombstones : Nat) :
    WellFormed window (rehash window ⟨slots, tombstones⟩) ∧
      (∀ topic count, Holds (rehash window ⟨slots, tombstones⟩).slots window topic count ↔
        Holds slots window topic count) ∧
      Outside window slots (rehash window ⟨slots, tombstones⟩).slots := by
  obtain ⟨_, part, outside⟩ := sound.refilled tombstones
  refine ⟨part.wellFormed, ?_, (clear_outside window slots).trans outside⟩
  intro topic count
  rw [part.holds, mem_live]

section Bury

variable {topic offset : Nat} {count : Int}

theorem Sound.holds_bury (sound : Sound slots window) (inside : offset < window.capacity)
    (here : window.slot slots offset = .occupied topic count) (other : Nat) (held : Int) :
    Holds (slots.setIfInBounds (window.base + offset) .tombstone) window other held ↔
      other ≠ topic ∧ Holds slots window other held := by
  have fits := sound.slot_lt inside
  rw [holds_set fits inside]
  constructor
  · rintro (absurd | ⟨slot, within, different, there⟩)
    · cases absurd
    · refine ⟨?_, slot, within, there⟩
      rintro rfl
      exact different (sound.unique slot within offset inside other held count there here)
  · rintro ⟨different, slot, within, there⟩
    refine Or.inr ⟨slot, within, ?_, there⟩
    rintro rfl
    rw [here] at there
    exact different (Slot.occupied.inj there).1.symm

theorem Sound.get_without (sound : Sound slots window) {after : Array Slot}
    (sound' : Sound after window)
    (holds : ∀ other held, Holds after window other held ↔ other ≠ topic ∧
      Holds slots window other held) (other : Nat) :
    get after window other = if other = topic then 0 else get slots window other := by
  split
  · next gone =>
    apply sound'.get_of_absent
    intro held member
    exact ((holds other held).mp member).1 gone
  · next different =>
    apply sound.get_congr sound'
    intro held
    rw [holds, and_iff_right different]

theorem Sound.bury (sound : Sound slots window) (inside : offset < window.capacity) :
    Sound (slots.setIfInBounds (window.base + offset) .tombstone) window :=
  sound.set inside (by simp) fun occupant held same => by cases same

theorem WellFormed.bury (wellFormed : WellFormed window table) (inside : offset < window.capacity)
    (here : window.slot table.slots offset = .occupied topic count) :
    Assigns window topic 0 table (bury window (window.base + offset) table) := by
  have sound := wellFormed.sound
  have fits := sound.slot_lt inside
  have buried := sound.bury inside
  have holds := sound.holds_bury inside here
  have tally : table.tombstones + 1 =
      (tombs (table.slots.setIfInBounds (window.base + offset) .tombstone) window).card := by
    rw [tombs_bury fits inside, Finset.card_insert_of_notMem (not_mem_tombs (by simp [here])),
      wellFormed.tally]
  have outside :
      Outside window table.slots (table.slots.setIfInBounds (window.base + offset) .tombstone) :=
    Outside.set inside _ _
  rw [Table.bury]
  dsimp only
  split
  -- Too many tombstones: the rebuilt window holds what the buried one does.
  · obtain ⟨rebuilt, same, further⟩ := buried.rehash (table.tombstones + 1)
    refine ⟨rebuilt, ?_, outside.trans further⟩
    exact sound.get_without rebuilt.sound fun other held =>
      (same other held).trans (holds other held)
  · next few =>
    refine ⟨⟨buried, tally, Nat.le_of_not_lt few⟩, ?_, outside⟩
    exact sound.get_without buried holds

end Bury

end LatentTopics.Table
