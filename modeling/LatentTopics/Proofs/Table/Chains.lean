import Mathlib
import LatentTopics.Proofs.Number
import LatentTopics.Proofs.Table.Probing

/-! What a window holds. In a sound window no topic stands twice, and on the way from a topic's home
to its slot there is no empty slot, so that a search ends at the topic if the window has it. -/
namespace LatentTopics

namespace Table

def Holds (slots : Array Slot) (window : Window) (topic : Nat) (count : Int) : Prop :=
  ∃ offset < window.capacity, window.slot slots offset = .occupied topic count

/-- The topic's chain from its home to the offset has no empty slot. -/
def Reaches (slots : Array Slot) (window : Window) (topic offset : Nat) : Prop :=
  ∃ steps < window.capacity, offsetAt window.capacity topic steps = offset ∧
    ∀ earlier < steps, visited slots window topic earlier ≠ .empty

structure Sound (slots : Array Slot) (window : Window) : Prop where
  fits : window.base + window.capacity ≤ slots.size
  power : window.capacity.isPowerOfTwo
  chained : ∀ offset < window.capacity, ∀ topic count,
    window.slot slots offset = .occupied topic count → Reaches slots window topic offset
  unique : ∀ first < window.capacity, ∀ second < window.capacity, ∀ topic count other,
    window.slot slots first = .occupied topic count →
    window.slot slots second = .occupied topic other → first = second
  stored : ∀ topic count, Holds slots window topic count → count ≠ 0 ∧ Number.Int32Range count

section Contents

variable {slots : Array Slot} {window : Window}

theorem Sound.positive (sound : Sound slots window) : 0 < window.capacity := by
  obtain ⟨bits, power⟩ := sound.power
  rw [power]
  exact Nat.two_pow_pos bits

theorem Sound.slot_lt (sound : Sound slots window) {offset : Nat}
    (inside : offset < window.capacity) :
    window.base + offset < slots.size := by
  have := sound.fits
  omega

theorem Sound.count_unique (sound : Sound slots window) {topic : Nat} {count other : Int}
    (first : Holds slots window topic count) (second : Holds slots window topic other) :
    count = other := by
  obtain ⟨offset, inside, here⟩ := first
  obtain ⟨offset', inside', there⟩ := second
  obtain rfl := sound.unique offset inside offset' inside' topic count other here there
  rw [here] at there
  exact (Slot.occupied.inj there).2

theorem pair?_eq_some {slot : Slot} {pair : Nat × Int} :
    slot.pair? = some pair ↔ slot = .occupied pair.1 pair.2 := by
  cases slot with
  | empty => simp [Slot.pair?]
  | tombstone => simp [Slot.pair?]
  | occupied occupant count => simp [Slot.pair?, Prod.ext_iff]

theorem mem_live (topic : Nat) (count : Int) :
    (topic, count) ∈ live slots window ↔ Holds slots window topic count := by
  simp only [live, List.mem_filterMap, List.mem_range'_1, Holds, Window.slot, pair?_eq_some]
  constructor
  · rintro ⟨index, ⟨least, below⟩, here⟩
    refine ⟨index - window.base, by omega, ?_⟩
    rw [Nat.add_sub_cancel' least, here]
  · rintro ⟨offset, inside, here⟩
    exact ⟨window.base + offset, ⟨by omega, by omega⟩, here⟩

theorem live_topics_nodup (sound : Sound slots window) :
    ((live slots window).map Prod.fst).Nodup := by
  rw [List.Nodup, List.pairwise_map, live, List.pairwise_filterMap]
  refine List.Pairwise.imp_of_mem ?_ List.nodup_range'
  intro first second firstIn secondIn different pair isFirst pair' isSecond same
  obtain ⟨least, below⟩ := List.mem_range'_1.mp firstIn
  obtain ⟨least', below'⟩ := List.mem_range'_1.mp secondIn
  have here : window.slot slots (first - window.base) = .occupied pair.1 pair.2 := by
    rw [Window.slot, Nat.add_sub_cancel' least]
    exact pair?_eq_some.mp isFirst
  have there : window.slot slots (second - window.base) = .occupied pair.1 pair'.2 := by
    rw [Window.slot, Nat.add_sub_cancel' least', same]
    exact pair?_eq_some.mp isSecond
  have := sound.unique _ (by omega) _ (by omega) _ _ _ here there
  omega

theorem live_nodup (sound : Sound slots window) : (live slots window).Nodup :=
  (live_topics_nodup sound).of_map

theorem length_live_le : (live slots window).length ≤ window.capacity := by
  have most := List.length_filterMap_le (fun index => (slots.getD index .empty).pair?)
    (List.range' window.base window.capacity)
  rwa [List.length_range'] at most

theorem length_live_eq_capacity : (live slots window).length = window.capacity ↔
    ∀ offset < window.capacity, ∃ occupant count, window.slot slots offset =
        .occupied occupant count := by
  have size : (List.range' window.base window.capacity).length = window.capacity :=
    List.length_range'
  have every := List.countP_eq_length (l := List.range' window.base window.capacity)
    (p := fun index => (slots.getD index .empty).pair?.isSome)
  rw [size] at every
  rw [live, List.length_filterMap_eq_countP, every]
  constructor
  · intro all offset inside
    have some := all (window.base + offset) (List.mem_range'_1.mpr ⟨by omega, by omega⟩)
    obtain ⟨pair, isPair⟩ := Option.isSome_iff_exists.mp some
    exact ⟨pair.1, pair.2, pair?_eq_some.mp isPair⟩
  · intro all index member
    obtain ⟨least, below⟩ := List.mem_range'_1.mp member
    obtain ⟨occupant, count, here⟩ := all (index - window.base) (by omega)
    rw [Window.slot, Nat.add_sub_cancel' least] at here
    simp only [here, Slot.pair?, Option.isSome_some]

def Absent (slots : Array Slot) (window : Window) (topic : Nat) : Prop :=
  ∀ count, ¬ Holds slots window topic count

theorem Sound.absent_of_unseen (sound : Sound slots window) {topic : Nat}
    (unseen : Unseen slots window topic 0 window.capacity) : Absent slots window topic := by
  rintro count ⟨offset, inside, here⟩
  obtain ⟨steps, within, reached, chain⟩ := sound.chained offset inside topic count here
  rw [← reached] at here
  -- The empty slot would stand on the chain from the home to the topic.
  obtain ⟨earlier, _, before, empty⟩ := unseen steps (Nat.zero_le _) within count here
  exact chain earlier before empty

theorem Sound.probe_cases (sound : Sound slots window) (topic : Nat) :
    (∃ offset count, offset < window.capacity ∧ window.slot slots offset = .occupied topic count ∧
      probe slots window topic = .found (window.base + offset) count) ∨
    (∃ offset, offset < window.capacity ∧ Absent slots window topic ∧
      (window.slot slots offset = .empty ∨ window.slot slots offset = .tombstone) ∧
      Reaches slots window topic offset ∧
      probe slots window topic = .vacant (window.base + offset)) ∨
    (Absent slots window topic ∧ (live slots window).length = window.capacity ∧
      probe slots window topic = .full) := by
  have outcome := probe_finds slots window topic
  generalize probe slots window topic = result at outcome ⊢
  cases outcome with
  | found steps count _ within here =>
      exact Or.inl ⟨_, count, offsetAt_lt sound.positive topic steps, here, rfl⟩
  | remembered index same _ => cases same
  | vacant steps _ _ within free chain unseen =>
      refine Or.inr (Or.inl ⟨_, offsetAt_lt sound.positive topic steps,
        sound.absent_of_unseen unseen, free, ⟨steps, within, rfl, ?_⟩, rfl⟩)
      exact fun earlier before => chain earlier (Nat.zero_le _) before
  -- A search of as many steps as slots visits every slot, and met other topics in all of them.
  | full _ others =>
      refine Or.inr (Or.inr ⟨?_, length_live_eq_capacity.mpr ?_, rfl⟩)
      · rintro count ⟨offset, inside, here⟩
        obtain ⟨steps, within, rfl⟩ := exists_offsetAt sound.power topic inside
        obtain ⟨occupant, other, different, occupied⟩ := others steps (Nat.zero_le _) within
        rw [visited, here] at occupied
        exact different (Slot.occupied.inj occupied).1.symm
      · intro offset inside
        obtain ⟨steps, within, rfl⟩ := exists_offsetAt sound.power topic inside
        obtain ⟨occupant, count, _, occupied⟩ := others steps (Nat.zero_le _) within
        exact ⟨occupant, count, occupied⟩

theorem Sound.get_of_holds (sound : Sound slots window) {topic : Nat} {count : Int}
    (holds : Holds slots window topic count) : get slots window topic = count := by
  rcases sound.probe_cases topic with ⟨offset, found, inside, here, outcome⟩ | ⟨_, _, absent,
    _⟩ | ⟨absent, _⟩
  · rw [get, outcome]
    exact sound.count_unique ⟨offset, inside, here⟩ holds
  · exact absurd holds (absent count)
  · exact absurd holds (absent count)

theorem Sound.get_of_absent (sound : Sound slots window) {topic : Nat}
    (absent : Absent slots window topic) : get slots window topic = 0 := by
  rcases sound.probe_cases topic with ⟨offset, found, inside, here, _⟩ | ⟨_, _, _, _, _,
    outcome⟩ | ⟨_, _, outcome⟩
  · exact absurd ⟨offset, inside, here⟩ (absent found)
  · rw [get, outcome]
  · rw [get, outcome]

theorem Sound.holds_iff (sound : Sound slots window) (topic : Nat) (count : Int) :
    Holds slots window topic count ↔ count ≠ 0 ∧ get slots window topic = count := by
  constructor
  · intro holds
    exact ⟨(sound.stored topic count holds).1, sound.get_of_holds holds⟩
  · rintro ⟨nonzero, same⟩
    -- A topic that stands in no slot is read as zero.
    by_contra missing
    have absent : Absent slots window topic := by
      intro other holds
      rw [sound.get_of_holds holds] at same
      exact missing (same ▸ holds)
    exact nonzero (same ▸ sound.get_of_absent absent)

theorem Sound.absent_iff (sound : Sound slots window) (topic : Nat) :
    Absent slots window topic ↔ get slots window topic = 0 := by
  constructor
  · exact sound.get_of_absent
  · intro zero count holds
    obtain ⟨nonzero, same⟩ := (sound.holds_iff topic count).mp holds
    exact nonzero (same ▸ zero)

theorem Sound.get_range (sound : Sound slots window) (topic : Nat) :
    Number.Int32Range (get slots window topic) := by
  by_cases zero : get slots window topic = 0
  · rw [zero]
    exact Number.Int32Range.zero
  · exact (sound.stored topic _ ((sound.holds_iff topic _).mpr ⟨zero, rfl⟩)).2

end Contents

end Table

end LatentTopics
