import Mathlib
import LatentTopics.Table

/-! Probing. The offsets that a search visits are its home moved on by triangular numbers; in a
window whose capacity is a power of two the first `capacity` of them are all different, so that a
search that does not stop has seen every slot. -/
namespace LatentTopics

def Window.slot (window : Window) (slots : Array Slot) (offset : Nat) : Slot :=
  slots.getD (window.base + offset) .empty

namespace Table

def triangle : Nat → Nat
  | 0 => 0
  | steps + 1 => triangle steps + (steps + 1)

def offsetAt (capacity topic steps : Nat) : Nat :=
  (topic + 1 + triangle steps) % capacity

theorem triangle_add (steps more : Nat) :
    2 * triangle (steps + more) = 2 * triangle steps + more * (2 * steps + more + 1) := by
  induction more with
  | zero => simp
  | succ more ih =>
      rw [← Nat.add_assoc, triangle, Nat.mul_add, ih]
      ring

/-- Triangular numbers of fewer than `2 ^ bits` steps differ modulo `2 ^ bits`: of the two factors
of their doubled difference one is odd, and the other one is too small. -/
theorem triangle_mod_ne {bits steps more base : Nat} (positive : 0 < more)
    (few : steps + more < 2 ^ bits) :
    (base + triangle steps) % 2 ^ bits ≠ (base + triangle (steps + more)) % 2 ^ bits := by
  intro same
  have division : 2 ^ bits ∣ triangle (steps + more) - triangle steps := by
    have difference := (Nat.modEq_iff_dvd' (by have := triangle_add steps more; omega)).mp same
    rwa [Nat.add_sub_add_left] at difference
  have doubled : 2 ^ (bits + 1) ∣ more * (2 * steps + more + 1) := by
    have product := Nat.mul_dvd_mul_left 2 division
    rw [← pow_succ', Nat.mul_sub, triangle_add, Nat.add_sub_cancel_left] at product
    exact product
  have power : 2 ^ (bits + 1) = 2 * 2 ^ bits := pow_succ' 2 bits
  rcases Nat.even_or_odd more with even | odd
  · have other : Odd (2 * steps + more + 1) := by
      obtain ⟨half, rfl⟩ := even
      exact ⟨steps + half, by ring⟩
    have coprime : Nat.Coprime (2 ^ (bits + 1)) (2 * steps + more + 1) :=
      Nat.Coprime.pow_left _ (Nat.coprime_two_left.mpr other)
    have least := Nat.le_of_dvd positive (coprime.dvd_of_dvd_mul_right doubled)
    omega
  · have coprime : Nat.Coprime (2 ^ (bits + 1)) more :=
      Nat.Coprime.pow_left _ (Nat.coprime_two_left.mpr odd)
    have least := Nat.le_of_dvd (Nat.succ_pos _) (coprime.dvd_of_dvd_mul_left doubled)
    omega

theorem offsetAt_injective {capacity : Nat} (power : capacity.isPowerOfTwo) (topic : Nat) :
    Set.InjOn (offsetAt capacity topic) (Finset.range capacity) := by
  obtain ⟨bits, rfl⟩ := power
  intro first firstBelow second secondBelow same
  simp only [Finset.coe_range, Set.mem_Iio] at firstBelow secondBelow
  rcases Nat.lt_trichotomy first second with before | equal | after
  · obtain ⟨more, rfl⟩ := Nat.exists_eq_add_of_lt before
    exact absurd same (triangle_mod_ne (Nat.succ_pos more) secondBelow)
  · exact equal
  · obtain ⟨more, rfl⟩ := Nat.exists_eq_add_of_lt after
    exact absurd same.symm (triangle_mod_ne (Nat.succ_pos more) firstBelow)

theorem offsetAt_lt {capacity : Nat} (positive : 0 < capacity) (topic steps : Nat) :
    offsetAt capacity topic steps < capacity :=
  Nat.mod_lt _ positive

/-- A search that takes `capacity` steps visits every offset. -/
theorem exists_offsetAt {capacity : Nat} (power : capacity.isPowerOfTwo) (topic : Nat)
    {offset : Nat} (inside : offset < capacity) :
    ∃ steps < capacity, offsetAt capacity topic steps = offset := by
  have positive : 0 < capacity := Nat.zero_lt_of_lt inside
  have into : (Finset.range capacity).image (offsetAt capacity topic) ⊆ Finset.range capacity := by
    intro reached member
    obtain ⟨steps, _, rfl⟩ := Finset.mem_image.mp member
    exact Finset.mem_range.mpr (offsetAt_lt positive topic steps)
  -- Different steps visit different offsets, and there are no more offsets than steps.
  have all := Finset.eq_of_subset_of_card_le into
    (Finset.card_image_of_injOn (offsetAt_injective power topic)).ge
  obtain ⟨steps, member, same⟩ := Finset.mem_image.mp (all ▸ Finset.mem_range.mpr inside)
  exact ⟨steps, Finset.mem_range.mp member, same⟩

def visited (slots : Array Slot) (window : Window) (topic steps : Nat) : Slot :=
  window.slot slots (offsetAt window.capacity topic steps)

/-- No slot from step `first` to before step `last` has the
topic, unless an empty slot comes first. -/
def Unseen (slots : Array Slot) (window : Window) (topic first last : Nat) : Prop :=
  ∀ steps, first ≤ steps → steps < last →
    ∀ count, visited slots window topic steps = .occupied topic count →
    ∃ earlier, first ≤ earlier ∧ earlier < steps ∧ visited slots window topic earlier = .empty

/-- What the outcome of a search says of the slots that it visits. The search has taken `first`
steps, remembers a hole, and ends before step `last`. -/
inductive Finds (slots : Array Slot) (window : Window) (topic first last : Nat)
    (hole : Option Nat) :
    Probe → Prop where
  | found (steps : Nat) (count : Int) (begun : first ≤ steps) (within : steps < last)
      (here : visited slots window topic steps = .occupied topic count) :
      Finds slots window topic first last hole
        (.found (window.base + offsetAt window.capacity topic steps) count)
  | remembered (index : Nat) (same : hole = some index)
      (unseen : Unseen slots window topic first last) :
      Finds slots window topic first last hole (.vacant index)
  | vacant (steps : Nat) (none : hole = none) (begun : first ≤ steps) (within : steps < last)
      (here : visited slots window topic steps = .empty ∨
        visited slots window topic steps = .tombstone)
      (chain : ∀ earlier, first ≤ earlier → earlier < steps →
        visited slots window topic earlier ≠ .empty)
      (unseen : Unseen slots window topic first last) :
      Finds slots window topic first last hole
        (.vacant (window.base + offsetAt window.capacity topic steps))
  | full (none : hole = none)
      (others : ∀ steps, first ≤ steps → steps < last → ∃ occupant count, occupant ≠ topic ∧
        visited slots window topic steps = .occupied occupant count) :
      Finds slots window topic first last hole .full

section Search

variable {slots : Array Slot} {window : Window} {topic first last : Nat}

theorem Unseen.of_empty (here : visited slots window topic first = .empty) :
    Unseen slots window topic first last := by
  intro steps begun _ count occupied
  rcases Nat.eq_or_lt_of_le begun with same | later
  · subst same
    rw [here] at occupied
    cases occupied
  · exact ⟨first, le_rfl, later, here⟩

theorem Unseen.of_next (here : ∀ count, visited slots window topic first ≠ .occupied topic count)
    (rest : Unseen slots window topic (first + 1) last) : Unseen slots window topic first last := by
  intro steps begun within count occupied
  rcases Nat.eq_or_lt_of_le begun with same | later
  · subst same
    exact absurd occupied (here count)
  · obtain ⟨earlier, after, before, empty⟩ := rest steps later within count occupied
    exact ⟨earlier, by omega, before, empty⟩

theorem offsetAt_succ (capacity topic steps : Nat) :
    (offsetAt capacity topic steps + (steps + 1)) % capacity =
        offsetAt capacity topic (steps + 1) := by
  simp only [offsetAt, triangle, Nat.mod_add_mod, Nat.add_assoc]

theorem Finds.past_occupied {hole : Option Nat} {outcome : Probe} {occupant : Nat} {count : Int}
    (slot : visited slots window topic first = .occupied occupant count)
    (different : occupant ≠ topic) (next : Finds slots window topic (first + 1) last hole outcome) :
    Finds slots window topic first last hole outcome := by
  have notHere : ∀ count, visited slots window topic first ≠ .occupied topic count := by
    simp [slot, different]
  cases next with
  | found steps count begun within occupied => exact .found steps count (by omega) within occupied
  | remembered index remembers unseen => exact .remembered index remembers (unseen.of_next notHere)
  | vacant steps none begun within free chain unseen =>
      refine .vacant steps none (by omega) within free ?_ (unseen.of_next notHere)
      intro earlier after before
      rcases Nat.eq_or_lt_of_le after with same | later
      · subst same
        simp [slot]
      · exact chain earlier later before
  | full none others =>
      refine .full none ?_
      intro steps begun within
      rcases Nat.eq_or_lt_of_le begun with same | later
      · subst same
        exact ⟨occupant, count, different, slot⟩
      · exact others steps later within

theorem Finds.past_tombstone {hole : Option Nat} {outcome : Probe}
    (slot : visited slots window topic first = .tombstone) (within : first < last)
    (next : Finds slots window topic (first + 1) last
      (hole.or (some (window.base + offsetAt window.capacity topic first))) outcome) :
    Finds slots window topic first last hole outcome := by
  have notHere : ∀ count, visited slots window topic first ≠ .occupied topic count := by
    simp [slot]
  cases next with
  | found steps count begun within occupied => exact .found steps count (by omega) within occupied
  | remembered index same unseen =>
      rcases hole with _ | earlier
      · obtain rfl : window.base + offsetAt window.capacity topic first = index := by
          simpa using same
        exact .vacant first rfl le_rfl within (Or.inr slot) (fun earlier after before => by omega)
          (unseen.of_next notHere)
      · exact .remembered index (by simpa using same) (unseen.of_next notHere)
  -- From here on there is a hole, so the other two outcomes cannot be.
  | vacant steps none _ _ _ _ _ => rcases hole with _ | earlier <;> simp at none
  | full none _ => rcases hole with _ | earlier <;> simp at none

theorem probeFrom_finds (slots : Array Slot) (window : Window) (topic probes first : Nat)
    (hole : Option Nat) :
    Finds slots window topic first (first + probes) hole
      (probeFrom slots window topic probes (first + 1)
        (offsetAt window.capacity topic first) hole) := by
  induction probes generalizing first hole with
  | zero =>
      rcases hole with _ | index
      · exact .full rfl fun steps begun within => by omega
      · exact .remembered index rfl fun steps begun within => by omega
  | succ probes ih =>
      have here : slots.getD (window.base + offsetAt window.capacity topic first) .empty =
          visited slots window topic first := rfl
      have rest : first + 1 + probes = first + (probes + 1) := by omega
      rw [probeFrom, here, offsetAt_succ]
      cases slot : visited slots window topic first with
      | empty =>
          rcases hole with _ | index
          · exact .vacant first rfl le_rfl (by omega) (Or.inl slot)
              (fun earlier after before => by omega)
              (Unseen.of_empty slot)
          · exact .remembered index rfl (Unseen.of_empty slot)
      | tombstone =>
          have next :=
            ih (first + 1) (hole.or (some (window.base + offsetAt window.capacity topic first)))
          rw [rest] at next
          exact next.past_tombstone slot (by omega)
      | occupied occupant count =>
          have next := ih (first + 1) hole
          rw [rest] at next
          by_cases same : occupant = topic
          · subst same
            simp only [if_true]
            exact .found first count le_rfl (by omega) slot
          · simp only [same, if_false]
            exact next.past_occupied slot same

theorem probe_finds (slots : Array Slot) (window : Window) (topic : Nat) :
    Finds slots window topic 0 window.capacity none (probe slots window topic) := by
  have outcome := probeFrom_finds slots window topic window.capacity 0 none
  have begin : offsetAt window.capacity topic 0 = home window topic := rfl
  rwa [Nat.zero_add, begin] at outcome

end Search

end Table

end LatentTopics
