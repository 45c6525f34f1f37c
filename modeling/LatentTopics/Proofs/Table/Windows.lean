import Mathlib
import LatentTopics.Proofs.Table.Addition

/-! A window as a table of its own. Nothing in a table depends on what
stands around its window, and nothing of it but the window changes, so
that one may as well cut the window out and work on the piece. -/
namespace LatentTopics

/-- The window itself, without the slots around it. -/
def Window.own (window : Window) : Window :=
  ⟨0, window.capacity⟩

def Window.cut (window : Window) (slots : Array Slot) : Array Slot :=
  slots.extract window.base (window.base + window.capacity)

namespace Table

def Probe.movedBy (base : Nat) : Probe → Probe
  | .found index count => .found (base + index) count
  | .vacant index => .vacant (base + index)
  | .full => .full

def cut (window : Window) (table : Table) : Table :=
  ⟨window.cut table.slots, table.tombstones⟩

variable {window : Window} {slots : Array Slot} {table : Table} {topic : Nat}

theorem probeFrom_cut (fits : window.base + window.capacity ≤ slots.size) (probes step : Nat)
    {offset : Nat} (inside : offset < window.capacity) (hole : Option Nat) :
    probeFrom slots window topic probes step offset (hole.map (window.base + ·)) =
      (probeFrom (window.cut slots) window.own topic probes step offset hole).movedBy
        window.base := by
  induction probes generalizing step offset hole with
  | zero => cases hole <;> rfl
  | succ probes ih =>
      have later : (offset + step) % window.capacity < window.capacity :=
        Nat.mod_lt _ (Nat.zero_lt_of_lt inside)
      have here : (window.cut slots).getD (window.own.base + offset) .empty =
          slots.getD (window.base + offset) .empty := by
        rw [Window.own, Nat.zero_add]
        exact Arrays.getD_piece fits inside .empty
      rw [probeFrom, probeFrom, here]
      cases slots.getD (window.base + offset) .empty with
      | empty => cases hole <;> simp [Probe.movedBy, Window.own]
      | tombstone =>
          have next := ih (step + 1) later (hole.or (some (window.own.base + offset)))
          have moved : (hole.or (some (window.own.base + offset))).map (window.base + ·) =
              (hole.map (window.base + ·)).or (some (window.base + offset)) := by
            cases hole <;> simp [Window.own]
          rw [moved] at next
          exact next
      | occupied occupant count =>
          dsimp only
          split
          · simp [Probe.movedBy, Window.own]
          · exact ih (step + 1) later hole

theorem probe_cut (fits : window.base + window.capacity ≤ slots.size)
    (positive : 0 < window.capacity) (topic : Nat) :
    probe slots window topic = (probe (window.cut slots) window.own topic).movedBy window.base :=
  probeFrom_cut fits window.capacity 1 (Nat.mod_lt _ positive) none

theorem probe_inside (positive : 0 < window.capacity) (slots : Array Slot) (topic : Nat) :
    (∀ index count, probe slots window topic = .found index count →
      ∃ offset < window.capacity, index = window.base + offset) ∧
      ∀ index, probe slots window topic = .vacant index →
      ∃ offset < window.capacity, index = window.base + offset := by
  have outcome := probe_finds slots window topic
  generalize probe slots window topic = result at outcome
  cases outcome with
  | found steps count =>
      refine ⟨?_, nofun⟩
      intro index held same
      exact ⟨_, offsetAt_lt positive topic steps, (Probe.found.inj same).1.symm⟩
  | remembered index same => cases same
  | vacant steps =>
      refine ⟨nofun, ?_⟩
      intro index same
      exact ⟨_, offsetAt_lt positive topic steps, (Probe.vacant.inj same).symm⟩
  | full => exact ⟨nofun, nofun⟩

inductive Parallel (window : Window) (slots : Array Slot) (topic : Nat) : Prop where
  | found (offset : Nat) (count : Int) (inside : offset < window.capacity)
      (whole : probe slots window topic = .found (window.base + offset) count)
      (piece : probe (window.cut slots) window.own topic = .found offset count)
  | vacant (offset : Nat) (inside : offset < window.capacity)
      (whole : probe slots window topic = .vacant (window.base + offset))
      (piece : probe (window.cut slots) window.own topic = .vacant offset)
  | full (whole : probe slots window topic = .full)
      (piece : probe (window.cut slots) window.own topic = .full)

theorem parallel (fits : window.base + window.capacity ≤ slots.size)
    (positive : 0 < window.capacity) (topic : Nat) : Parallel window slots topic := by
  have moved := probe_cut fits positive topic
  have positive' : 0 < window.own.capacity := positive
  obtain ⟨inFound, inVacant⟩ := probe_inside positive' (window.cut slots) topic
  cases outcome : probe (window.cut slots) window.own topic with
  | found index count =>
      obtain ⟨offset, inside, same⟩ := inFound index count outcome
      obtain rfl : index = offset := same.trans (Nat.zero_add offset)
      rw [outcome] at moved
      exact .found index count inside moved outcome
  | vacant index =>
      obtain ⟨offset, inside, same⟩ := inVacant index outcome
      obtain rfl : index = offset := same.trans (Nat.zero_add offset)
      rw [outcome] at moved
      exact .vacant index inside moved outcome
  | full =>
      rw [outcome] at moved
      exact .full moved outcome

theorem cut_set (fits : window.base + window.capacity ≤ slots.size) {offset : Nat}
    (inside : offset < window.capacity) (slot : Slot) :
    window.cut (slots.setIfInBounds (window.base + offset) slot) =
      (window.cut slots).setIfInBounds offset slot :=
  Arrays.piece_set fits inside slot

theorem cut_size (fits : window.base + window.capacity ≤ slots.size) :
    (window.cut slots).size = window.capacity :=
  Arrays.size_piece fits

theorem clear_cut (fits : window.base + window.capacity ≤ slots.size) :
    window.cut (clear slots window) = clear (window.cut slots) window.own := by
  have fits' : window.base + window.capacity ≤ (clear slots window).size := by
    rw [clear_size]
    exact fits
  apply Arrays.ext_getD (by rw [cut_size fits', clear_size, cut_size fits]) Slot.empty
  intro index inside
  rw [cut_size fits'] at inside
  have within : window.own.base ≤ index ∧ index < window.own.base + window.own.capacity := by
    simpa [Window.own] using inside
  rw [Window.cut, Arrays.getD_piece fits' inside, clear_getD, clear_getD, if_pos (by omega),
    if_pos within]

theorem live_cut (fits : window.base + window.capacity ≤ slots.size) :
    live slots window = live (window.cut slots) window.own := by
  have indexes : List.range' window.base window.capacity = (List.range' 0 window.capacity).map
      (window.base + ·) := by
    rw [List.map_add_range', Nat.add_zero]
  rw [live, live, indexes, List.filterMap_map]
  apply List.filterMap_congr
  intro index member
  have inside : index < window.capacity := by
    simpa using (List.mem_range'_1.mp member).2
  rw [Function.comp_apply, Window.cut, Arrays.getD_piece fits inside]

theorem insertNew_cut (fits : window.base + window.capacity ≤ slots.size)
    (positive : 0 < window.capacity) (entry : Nat × Int) :
    window.cut (insertNew window slots entry) = insertNew window.own (window.cut slots) entry := by
  cases parallel fits positive entry.1 with
  | found offset count inside whole piece => rw [insertNew, whole, insertNew, piece]
  | vacant offset inside whole piece =>
      rw [insertNew, whole, insertNew, piece]
      exact cut_set fits inside _
  | full whole piece => rw [insertNew, whole, insertNew, piece]

theorem insertAll_cut (entries : List (Nat × Int)) {slots : Array Slot}
    (fits : window.base + window.capacity ≤ slots.size) (positive : 0 < window.capacity) :
    window.cut (entries.foldl (insertNew window) slots) =
      entries.foldl (insertNew window.own) (window.cut slots) := by
  induction entries generalizing slots with
  | nil => rfl
  | cons entry entries ih =>
      have next : window.base + window.capacity ≤ (insertNew window slots entry).size := by
        rw [insertNew_size]
        exact fits
      rw [List.foldl_cons, List.foldl_cons, ih next, insertNew_cut fits positive]

theorem rehash_cut (fits : window.base + window.capacity ≤ table.slots.size)
    (positive : 0 < window.capacity) :
    cut window (rehash window table) = rehash window.own (cut window table) := by
  have fits' : window.base + window.capacity ≤ (clear table.slots window).size := by
    rw [clear_size]
    exact fits
  rw [rehash, rehash, cut, insertAll_cut _ fits' positive, clear_cut fits, live_cut fits]
  rfl

theorem bury_cut (fits : window.base + window.capacity ≤ table.slots.size) {offset : Nat}
    (inside : offset < window.capacity) :
    cut window (bury window (window.base + offset) table) =
        bury window.own offset (cut window table) := by
  have fits' : window.base + window.capacity ≤
      (table.slots.setIfInBounds (window.base + offset) .tombstone).size := by
    rw [Array.size_setIfInBounds]
    exact fits
  have buried : cut window ⟨table.slots.setIfInBounds (window.base + offset) .tombstone,
      table.tombstones + 1⟩ =
      ⟨(cut window table).slots.setIfInBounds offset .tombstone,
        (cut window table).tombstones + 1⟩ := by
    rw [cut, cut_set fits inside]
    rfl
  by_cases many : window.capacity < (table.tombstones + 1) * tombstoneRatio
  · have many' : window.own.capacity < ((cut window table).tombstones + 1) * tombstoneRatio := many
    simp only [bury, if_pos many, if_pos many']
    rw [rehash_cut fits' (Nat.zero_lt_of_lt inside), buried]
  · have few : ¬ window.own.capacity < ((cut window table).tombstones + 1) * tombstoneRatio := many
    simp only [bury, if_neg many, if_neg few]
    exact buried

theorem occupy_cut (fits : window.base + window.capacity ≤ table.slots.size) {offset : Nat}
    (inside : offset < window.capacity) (topic : Nat) (count : Int) :
    cut window (occupy (window.base + offset) topic count table) = occupy offset topic count
        (cut window table) := by
  have here : (window.cut table.slots).getD offset .empty =
      table.slots.getD (window.base + offset) .empty :=
    Arrays.getD_piece fits inside .empty
  rw [occupy_eq, occupy_eq, cut, cut_set fits inside, cut, here]

/-- An addition works on the piece that is cut out as it does on the window. -/
theorem add_cut (fits : window.base + window.capacity ≤ table.slots.size)
    (positive : 0 < window.capacity) (topic : Nat) (delta : Int) :
    Update.Agree (fun whole piece => cut window whole = piece) (add window topic delta)
        (add window.own topic delta)
      table (cut window table) := by
  cases parallel fits positive topic with
  | found offset count inside whole piece =>
      have piece' : probe (cut window table).slots window.own topic = .found offset count := piece
      constructor
      · simp only [Update.refusal, add, whole, piece']
        split_ifs <;> rfl
      · simp only [Update.left, add, whole, piece']
        split_ifs
        · rfl
        · exact bury_cut fits inside
        · exact occupy_cut fits inside topic _
  | vacant offset inside whole piece =>
      have piece' : probe (cut window table).slots window.own topic = .vacant offset := piece
      constructor
      · simp only [Update.refusal, add, whole, piece']
        split_ifs <;> rfl
      · simp only [Update.left, add, whole, piece']
        split_ifs
        · rfl
        · rfl
        · exact occupy_cut fits inside topic delta
  | full whole piece =>
      have piece' : probe (cut window table).slots window.own topic = .full := piece
      constructor
      · simp only [Update.refusal, add, whole, piece']
        rfl
      · simp only [Update.left, add, whole, piece']

end Table

end LatentTopics
