import Mathlib
import LatentTopics.Proofs.Table.Rebuild
import LatentTopics.Proofs.Updates

/-! Adding to the count of a topic. Whether it succeeds is decided by the count of the topic and by
the number of topics in the window; what is read afterwards depends on the slots of the window only.
No addition gives or takes slots. -/
namespace LatentTopics.Table

variable {window : Window} {table : Table} {topic : Nat} {delta : Int}

def HasRoom (slots : Array Slot) (window : Window) (topic : Nat) : Prop :=
  get slots window topic ≠ 0 ∨ (live slots window).length < window.capacity

theorem add_full (wellFormed : WellFormed window table) (full : ¬ HasRoom table.slots window topic)
    (delta : Int) :
    add window topic delta table = .error (.tableFull topic window.capacity) table := by
  simp only [HasRoom, not_or, not_not, not_lt] at full
  have absent := (wellFormed.sound.absent_iff topic).mpr full.1
  rcases wellFormed.sound.probe_cases topic with
    ⟨offset, count, inside, here, _⟩ | ⟨offset, inside, _, free, _⟩ | ⟨_, _, outcome⟩
  · exact absurd ⟨offset, inside, here⟩ (absent count)
  · have every := length_live_eq_capacity.mp (le_antisymm length_live_le full.2)
    obtain ⟨occupant, count, here⟩ := every offset inside
    rcases free with empty | tombstone
    · rw [empty] at here
      cases here
    · rw [tombstone] at here
      cases here
  · rw [add, outcome]

theorem add_negative (wellFormed : WellFormed window table)
    (room : HasRoom table.slots window topic)
    (negative : get table.slots window topic + delta < 0) :
    add window topic delta table =
        .error (.negativeCount topic (get table.slots window topic + delta)) table := by
  have sound := wellFormed.sound
  rcases sound.probe_cases topic with
    ⟨offset, count, inside, here, outcome⟩ | ⟨_, _, absent, _, _, outcome⟩ | ⟨absent, full, _⟩
  · rw [sound.get_of_holds ⟨offset, inside, here⟩] at negative ⊢
    simp only [add, outcome]
    rw [if_pos negative]
  · rw [sound.get_of_absent absent, zero_add] at negative ⊢
    simp only [add, outcome]
    rw [if_pos negative]
  · rcases room with present | few
    · exact absurd (sound.get_of_absent absent) present
    · omega

theorem add_error {fault : Fault} {after : Table}
    (failed : add window topic delta table = .error fault after) :
    after = table := by
  rw [add] at failed
  cases outcome : probe table.slots window topic with
  | full =>
      rw [outcome] at failed
      cases failed
      rfl
  | found index current =>
      simp only [outcome] at failed
      split_ifs at failed
      cases failed
      rfl
  | vacant index =>
      simp only [outcome] at failed
      split_ifs at failed
      cases failed
      rfl

theorem add_ok (wellFormed : WellFormed window table) (room : HasRoom table.slots window topic)
    (range : Number.Int32Range delta) (nonneg : 0 ≤ get table.slots window topic + delta) :
    ∃ after, add window topic delta table = .ok () after ∧
      Assigns window topic (Number.narrow (get table.slots window topic + delta)) table after := by
  have sound := wellFormed.sound
  have current := sound.get_range topic
  rcases sound.probe_cases topic with
    ⟨offset, count, inside, here, outcome⟩ | ⟨offset, inside, absent, free, reaches,
      outcome⟩ | ⟨absent, full, _⟩
  -- A topic that is there: with nothing left its slot becomes a tombstone.
  · rw [sound.get_of_holds ⟨offset, inside, here⟩] at nonneg current ⊢
    simp only [add, outcome, not_lt.mpr nonneg, if_false]
    by_cases zero : count + delta = 0
    · rw [if_pos zero, zero, Number.narrow_eq_self (by omega) (by omega)]
      exact ⟨_, rfl, wellFormed.bury inside here⟩
    · rw [if_neg zero]
      refine ⟨_, rfl, wellFormed.occupy (sound.place_of_found inside here) ?_
        (Number.narrow_range _)⟩
      apply Number.narrow_ne_zero (by omega)
      have := current.2
      have := range.2
      omega
  -- A new topic takes the vacant slot, unless nothing is added.
  · rw [sound.get_of_absent absent, zero_add] at nonneg ⊢
    simp only [add, outcome, not_lt.mpr nonneg, if_false]
    rw [range.narrow_eq]
    by_cases zero : delta = 0
    · rw [if_pos zero, zero]
      refine ⟨table, rfl, wellFormed, ?_, Outside.refl window table.slots⟩
      intro other
      split
      · next same =>
        rw [same]
        exact sound.get_of_absent absent
      · rfl
    · rw [if_neg zero]
      exact ⟨_, rfl, wellFormed.occupy
        (Sound.place_of_vacant inside absent reaches free) zero range⟩
  · rcases room with present | few
    · exact absurd (sound.get_of_absent absent) present
    · omega

/-- An addition is refused for want of room or because its sum is negative, and otherwise sets the
count to what 32 bits hold of the sum. -/
theorem WellFormed.add_outcome (wellFormed : WellFormed window table) (topic : Nat)
    (range : Number.Int32Range delta) :
    (∃ after, add window topic delta table = .ok () after ∧ HasRoom table.slots window topic ∧
      0 ≤ get table.slots window topic + delta ∧
      Assigns window topic (Number.narrow (get table.slots window topic + delta)) table after) ∨
      ∃ fault, add window topic delta table = .error fault table ∧
        (HasRoom table.slots window topic → get table.slots window topic + delta < 0) := by
  by_cases room : HasRoom table.slots window topic
  · by_cases negative : get table.slots window topic + delta < 0
    · exact Or.inr ⟨_, add_negative wellFormed room negative, fun _ => negative⟩
    · obtain ⟨after, added, assigns⟩ := add_ok wellFormed room range (not_lt.mp negative)
      exact Or.inl ⟨after, added, room, not_lt.mp negative, assigns⟩
  · exact Or.inr ⟨_, add_full wellFormed room delta, fun taken => absurd taken room⟩

theorem WellFormed.assigns_of_ok (wellFormed : WellFormed window table)
    (range : Number.Int32Range delta) {after : Table}
    (added : add window topic delta table = .ok () after) :
    Assigns window topic (Number.narrow (get table.slots window topic + delta)) table after := by
  rcases wellFormed.add_outcome topic range with ⟨_, added', _, _, assigns⟩ | ⟨_, refused, _⟩
  · rw [added] at added'
    cases added'
    exact assigns
  · rw [added] at refused
    cases refused

section Congruence

variable {slots slots' : Array Slot}

def Alike (slots : Array Slot) (window : Window) (slots' : Array Slot) (window' : Window) : Prop :=
  window'.capacity = window.capacity ∧
    ∀ offset < window.capacity, window'.slot slots' offset = window.slot slots offset

variable {window' : Window}

theorem Alike.holds (alike : Alike slots window slots' window') (topic : Nat) (count : Int) :
    Holds slots' window' topic count ↔ Holds slots window topic count := by
  simp only [Holds, alike.1]
  constructor
  · rintro ⟨offset, inside, here⟩
    exact ⟨offset, inside, by rw [← alike.2 offset inside, here]⟩
  · rintro ⟨offset, inside, here⟩
    exact ⟨offset, inside, by rw [alike.2 offset inside, here]⟩

theorem Alike.visited (alike : Alike slots window slots' window') (positive : 0 < window.capacity)
    (topic steps : Nat) :
    visited slots' window' topic steps = Table.visited slots window topic steps := by
  rw [Table.visited, Table.visited, alike.1]
  exact alike.2 _ (offsetAt_lt positive topic steps)

theorem Sound.alike (sound : Sound slots window) (alike : Alike slots window slots' window')
    (fits : window'.base + window'.capacity ≤ slots'.size) : Sound slots' window' := by
  have positive := sound.positive
  constructor
  · exact fits
  · rw [alike.1]
    exact sound.power
  · intro offset inside topic count here
    rw [alike.1] at inside
    rw [alike.2 offset inside] at here
    obtain ⟨steps, within, reached, chain⟩ := sound.chained offset inside topic count here
    refine ⟨steps, by rw [alike.1]; exact within, by rw [alike.1]; exact reached, ?_⟩
    intro earlier before
    rw [alike.visited positive]
    exact chain earlier before
  · intro first firstIn second secondIn topic count other here there
    rw [alike.1] at firstIn secondIn
    rw [alike.2 first firstIn] at here
    rw [alike.2 second secondIn] at there
    exact sound.unique first firstIn second secondIn topic count other here there
  · intro topic count holds
    exact sound.stored topic count ((alike.holds topic count).mp holds)

theorem Sound.get_alike (sound : Sound slots window) (alike : Alike slots window slots' window')
    (fits : window'.base + window'.capacity ≤ slots'.size) (topic : Nat) :
    get slots' window' topic = get slots window topic := by
  apply (sound.alike alike fits).get_eq
  intro count
  rw [alike.holds, sound.holds_iff]
  constructor
  · rintro ⟨nonzero, rfl⟩
    exact ⟨rfl, nonzero⟩
  · rintro ⟨rfl, nonzero⟩
    exact ⟨nonzero, rfl⟩

theorem Alike.tombs (alike : Alike slots window slots' window') :
    tombs slots' window' = Table.tombs slots window := by
  ext offset
  simp only [Table.tombs, Finset.mem_filter, Finset.mem_range, alike.1]
  apply and_congr_right
  intro inside
  rw [alike.2 offset inside]

theorem WellFormed.alike {tombstones : Nat} (wellFormed : WellFormed window ⟨slots, tombstones⟩)
    (alike : Alike slots window slots' window')
    (fits : window'.base + window'.capacity ≤ slots'.size) :
    WellFormed window' ⟨slots', tombstones⟩ := by
  constructor
  · exact wellFormed.sound.alike alike fits
  · rw [alike.tombs]
    exact wellFormed.tally
  · rw [alike.1]
    exact wellFormed.few

theorem Outside.alike {other : Window} (outside : Outside window slots slots')
    (apart : other.base + other.capacity ≤ window.base ∨
      window.base + window.capacity ≤ other.base) : Alike slots other slots' other := by
  refine ⟨rfl, ?_⟩
  intro offset inside
  exact outside.slots _ (by omega)

end Congruence

section Size

theorem insertNew_size (window : Window) (slots : Array Slot) (entry : Nat × Int) :
    (insertNew window slots entry).size = slots.size := by
  rw [insertNew]
  split
  · exact Array.size_setIfInBounds
  · rfl

theorem rehash_size (window : Window) (table : Table) :
    (rehash window table).slots.size = table.slots.size := by
  simp only [rehash]
  rw [← clear_size table.slots window]
  generalize clear table.slots window = slots
  induction live table.slots window generalizing slots with
  | nil => rfl
  | cons entry entries ih => rw [List.foldl_cons, ih, insertNew_size]

theorem bury_size (window : Window) (index : Nat) (table : Table) :
    (bury window index table).slots.size = table.slots.size := by
  rw [bury]
  split
  · rw [rehash_size, Array.size_setIfInBounds]
  · exact Array.size_setIfInBounds

theorem occupy_size (index topic : Nat) (count : Int) (table : Table) :
    (occupy index topic count table).slots.size = table.slots.size :=
  Array.size_setIfInBounds

theorem keeps_size (window : Window) (topic : Nat) (delta : Int) (size : Nat) :
    Update.Keeps (fun table => table.slots.size = size) (add window topic delta) := by
  rintro table rfl
  rw [Update.left, add]
  cases probe table.slots window topic with
  | full => rfl
  | found index current =>
      dsimp only
      split_ifs
      · rfl
      · exact bury_size window index table
      · exact occupy_size index topic _ table
  | vacant index =>
      dsimp only
      split_ifs
      · rfl
      · rfl
      · exact occupy_size index topic delta table

end Size

end LatentTopics.Table
