import Mathlib
import LatentTopics.Proofs.Updates
import LatentTopics.Proofs.Table.Addition

/-! A table is a finite map. Whatever is added to it and however often it is
rebuilt, its window holds a map from topics to positive counts; every
addition is answered as the map demands and changes it at one topic only. -/
namespace LatentTopics.Table

/-- The window holds the pairs of a map and each topic once,
and its tombstones are counted and few. -/
structure Represents (window : Window) (table : Table) (counts : Nat →₀ Nat) : Prop where
  get : ∀ topic, Table.get table.slots window topic = counts topic
  live : ∀ topic count, (topic, count) ∈ Table.live table.slots window ↔ topic ∈ counts.support ∧
    count = counts topic
  once : ((Table.live table.slots window).map Prod.fst).Nodup
  tombstones : table.tombstones = (tombs table.slots window).card
  few : 50 * table.tombstones ≤ window.capacity

def Filled (slots : Array Slot) (window : Window) (topic : Nat) : Prop :=
  ∀ offset < window.capacity, ∃ occupant count, occupant ≠ topic ∧
    window.slot slots offset = .occupied occupant count

structure Rebuilds (window : Window) (table : Table) (counts : Nat →₀ Nat) : Prop where
  refills : Refills window (clear table.slots window) (live table.slots window)
    (rehash window table).slots
  represents : Represents window (rehash window table) counts

/-- What an addition does to a table that holds a map. A count that drops to zero leaves a table
whose rebuild, if it comes to that, keeps the map without the topic. -/
structure Adds (window : Window) (topic : Nat) (delta : Int) (table : Table)
    (counts : Nat →₀ Nat) : Prop where
  full : Update.refusal (add window topic delta) table = some (.tableFull topic window.capacity) ↔
    counts topic = 0 ∧ Filled table.slots window topic
  negative : ¬ (counts topic = 0 ∧ Filled table.slots window topic) →
    (Update.refusal (add window topic delta) table =
      some (.negativeCount topic (counts topic + delta)) ↔ counts topic + delta < 0)
  added : ¬ (counts topic = 0 ∧ Filled table.slots window topic) → 0 ≤ counts topic + delta →
    Update.refusal (add window topic delta) table = none ∧
      Represents window (Update.left (add window topic delta) table)
        (counts.update topic (counts topic + delta).toNat)
  unchanged : Update.refusal (add window topic delta) table ≠ none →
    Update.left (add window topic delta) table = table
  rebuilds : ∀ index count, probe table.slots window topic = .found index count →
    Rebuilds window ⟨table.slots.setIfInBounds index .tombstone, table.tombstones + 1⟩
      (counts.erase topic)

structure Keeps (window : Window) (table : Table) (counts : Nat →₀ Nat) : Prop where
  wellFormed : WellFormed window table
  counts : ∀ topic, get table.slots window topic = counts topic

section Keeping

variable {window : Window} {table : Table} {counts : Nat →₀ Nat} {topic : Nat} {delta : Int}

theorem Keeps.represents (keeps : Keeps window table counts) : Represents window table counts := by
  constructor
  · exact keeps.counts
  · intro topic count
    rw [mem_live, keeps.wellFormed.sound.holds_iff, keeps.counts, Finsupp.mem_support_iff]
    constructor
    · rintro ⟨nonzero, rfl⟩
      exact ⟨fun zero => nonzero (by rw [zero]; rfl), rfl⟩
    · rintro ⟨present, rfl⟩
      exact ⟨fun zero => present (Int.natCast_eq_zero.mp zero), rfl⟩
  · exact live_topics_nodup keeps.wellFormed.sound
  · exact keeps.wellFormed.tally
  · have few := keeps.wellFormed.few
    rwa [tombstoneRatio, Nat.mul_comm] at few

theorem Keeps.filled_iff (keeps : Keeps window table counts) (topic : Nat) :
    counts topic = 0 ∧ Filled table.slots window topic ↔ ¬ HasRoom table.slots window topic := by
  have sound := keeps.wellFormed.sound
  rw [HasRoom, not_or, not_not, not_lt, keeps.counts, Int.natCast_eq_zero]
  apply and_congr_right
  intro zero
  have absent : Absent table.slots window topic := by
    rw [sound.absent_iff, keeps.counts, zero]
    rfl
  constructor
  · intro filled
    apply (length_live_eq_capacity.mpr _).ge
    intro offset inside
    obtain ⟨occupant, count, _, here⟩ := filled offset inside
    exact ⟨occupant, count, here⟩
  · intro most offset inside
    obtain ⟨occupant, count, here⟩ :=
      length_live_eq_capacity.mp (le_antisymm length_live_le most) offset inside
    refine ⟨occupant, count, ?_, here⟩
    rintro rfl
    exact absent count ⟨offset, inside, here⟩

theorem Sound.rebuilt_keeps {slots : Array Slot} (sound : Sound slots window)
    (same : ∀ topic, get slots window topic = counts topic) (tombstones : Nat) :
    Keeps window (Table.rehash window ⟨slots, tombstones⟩) counts := by
  obtain ⟨rebuilt, holds, _⟩ := sound.rehash tombstones
  refine ⟨rebuilt, ?_⟩
  intro topic
  rw [← same topic]
  exact sound.get_congr rebuilt.sound (holds topic)

theorem Sound.rebuilds {slots : Array Slot} (sound : Sound slots window)
    (same : ∀ topic, get slots window topic = counts topic) (tombstones : Nat) :
    Rebuilds window ⟨slots, tombstones⟩ counts :=
  ⟨(sound.refilled tombstones).1, (sound.rebuilt_keeps same tombstones).represents⟩

theorem Keeps.rebuilds_buried (keeps : Keeps window table counts) {index : Nat} {count : Int}
    (found : probe table.slots window topic = .found index count) :
    Rebuilds window ⟨table.slots.setIfInBounds index .tombstone, table.tombstones + 1⟩
        (counts.erase topic) := by
  have sound := keeps.wellFormed.sound
  rcases sound.probe_cases topic with ⟨offset, held, inside, here, outcome⟩ | ⟨_, _, _, _, _,
    outcome⟩ | ⟨_, _, outcome⟩
  · obtain ⟨rfl, rfl⟩ := Probe.found.inj (outcome.symm.trans found)
    apply (sound.bury inside).rebuilds
    intro other
    rw [sound.get_without (sound.bury inside) (sound.holds_bury inside here), Finsupp.erase_apply]
    split
    · rfl
    · exact keeps.counts other
  · rw [outcome] at found
    cases found
  · rw [outcome] at found
    cases found

theorem Keeps.add_cases (keeps : Keeps window table counts) (range : Number.Int32Range delta)
    (small : counts topic + delta ≤ 2147483647) :
    (¬ HasRoom table.slots window topic ∧
      add window topic delta table = .error (.tableFull topic window.capacity) table) ∨
    (HasRoom table.slots window topic ∧ counts topic + delta < 0 ∧
      add window topic delta table = .error (.negativeCount topic (counts topic + delta)) table) ∨
    (HasRoom table.slots window topic ∧ 0 ≤ counts topic + delta ∧ ∃ after,
      add window topic delta table = .ok () after ∧
        Keeps window after (counts.update topic (counts topic + delta).toNat)) := by
  by_cases room : HasRoom table.slots window topic
  · by_cases negative : counts topic + delta < 0
    · have refused := add_negative keeps.wellFormed room (keeps.counts topic ▸ negative)
      rw [keeps.counts] at refused
      exact Or.inr (Or.inl ⟨room, negative, refused⟩)
    · have nonneg := not_lt.mp negative
      obtain ⟨after, added, assigns⟩ :=
        add_ok keeps.wellFormed room range (keeps.counts topic ▸ nonneg)
      refine Or.inr (Or.inr ⟨room, nonneg, after, added, assigns.wellFormed, ?_⟩)
      intro other
      rw [assigns.counts, keeps.counts topic, keeps.counts other,
        Number.narrow_eq_self (by omega) (by omega), Finsupp.coe_update, Function.update_apply]
      split
      · rw [Int.toNat_of_nonneg nonneg]
      · rfl
  · exact Or.inl ⟨room, add_full keeps.wellFormed room delta⟩

theorem Keeps.adds (keeps : Keeps window table counts) (range : Number.Int32Range delta)
    (small : counts topic + delta ≤ 2147483647) : Adds window topic delta table counts := by
  have filled := keeps.filled_iff topic
  rcases keeps.add_cases range small with ⟨noRoom, refused⟩ | ⟨room, negative, refused⟩ | ⟨room,
    nonneg, after, done, kept⟩
  · have isFilled := filled.mpr noRoom
    have reason := Update.refusal_of_error refused
    constructor
    · exact ⟨fun _ => isFilled, fun _ => reason⟩
    · exact fun spare => absurd isFilled spare
    · exact fun spare => absurd isFilled spare
    · exact fun _ => Update.left_of_error refused
    · exact fun _ _ found => keeps.rebuilds_buried found
  · have spare := fun isFilled => filled.mp isFilled room
    have reason := Update.refusal_of_error refused
    constructor
    · rw [reason]
      exact ⟨nofun, fun isFilled => absurd isFilled spare⟩
    · exact fun _ => ⟨fun _ => negative, fun _ => reason⟩
    · exact fun _ nonneg => absurd nonneg (not_le.mpr negative)
    · exact fun _ => Update.left_of_error refused
    · exact fun _ _ found => keeps.rebuilds_buried found
  · have spare := fun isFilled => filled.mp isFilled room
    have accepted := Update.refusal_of_ok done
    rw [← Update.left_of_ok done] at kept
    constructor
    · rw [accepted]
      exact ⟨nofun, fun isFilled => absurd isFilled spare⟩
    · rw [accepted]
      exact fun _ => ⟨nofun, fun negative => absurd nonneg (not_le.mpr negative)⟩
    · exact fun _ _ => ⟨accepted, kept.represents⟩
    · exact fun failed => absurd accepted failed
    · exact fun _ _ found => keeps.rebuilds_buried found

end Keeping

inductive Call where
  | add (topic : Nat) (delta : Int)
  | rehash
  deriving DecidableEq, Repr

def Call.run (window : Window) : Call → Update Table Unit
  | .add topic delta => Table.add window topic delta
  | .rehash => fun table => .ok () (Table.rehash window table)

/-- An addition of a signed 32-bit number that leads to no larger count. -/
def Call.Small (window : Window) (table : Table) : Call → Prop
  | .add topic delta => Number.Int32Range delta ∧ get table.slots window topic + delta ≤ 2147483647
  | .rehash => True

/-- The table after calls; a refused one does not stop those after it. -/
def runAll (window : Window) : List Call → Table → Table
  | [], table => table
  | call :: calls, table => runAll window calls (Update.left (call.run window) table)

def AllSmall (window : Window) : List Call → Table → Prop
  | [], _ => True
  | call :: calls, table =>
      call.Small window table ∧ AllSmall window calls (Update.left (call.run window) table)

instance decidableSmall (window : Window) (table : Table) :
    (call : Call) → Decidable (call.Small window table)
  | .add _ _ => inferInstanceAs (Decidable ((_ ∧ _) ∧ _))
  | .rehash => .isTrue trivial

instance decidableAllSmall (window : Window) :
    (calls : List Call) → (table : Table) → Decidable (AllSmall window calls table)
  | [], _ => .isTrue trivial
  | call :: calls, table =>
      @instDecidableAnd _ _ inferInstance
        (decidableAllSmall window calls (Update.left (call.run window) table))

section Running

variable {window : Window} {slots : Array Slot} {table : Table} {counts : Nat →₀ Nat}

theorem keeps_empty (fits : window.base + window.capacity ≤ slots.size)
    (power : window.capacity.isPowerOfTwo)
    (empty : ∀ offset < window.capacity, window.slot slots offset = .empty) :
    Keeps window ⟨slots, 0⟩ 0 := by
  have wellFormed := wellFormed_of_empty fits power empty
  exact ⟨wellFormed, fun topic => wellFormed.sound.get_of_absent (absent_of_empty empty topic)⟩

theorem Keeps.run (keeps : Keeps window table counts) {call : Call}
    (small : call.Small window table) :
    ∃ counts', Keeps window (Update.left (call.run window) table) counts' := by
  cases call with
  | add topic delta =>
      rw [Call.Small, keeps.counts] at small
      rcases keeps.add_cases small.1 small.2 with ⟨_, refused⟩ | ⟨_, _, refused⟩ | ⟨_, _,
        after, done, kept⟩
      · rw [Call.run, Update.left_of_error refused]
        exact ⟨counts, keeps⟩
      · rw [Call.run, Update.left_of_error refused]
        exact ⟨counts, keeps⟩
      · rw [Call.run, Update.left_of_ok done]
        exact ⟨_, kept⟩
  | rehash => exact ⟨counts, keeps.wellFormed.sound.rebuilt_keeps keeps.counts table.tombstones⟩

theorem Keeps.runAll (calls : List Call) (keeps : Keeps window table counts)
    (small : AllSmall window calls table) :
    ∃ counts', Keeps window (runAll window calls table) counts' := by
  induction calls generalizing table counts with
  | nil => exact ⟨counts, keeps⟩
  | cons call calls ih =>
      obtain ⟨next, kept⟩ := keeps.run small.1
      exact ih kept small.2

/-- A table that was empty once holds a map after all calls. An addition to
it fails when other topics take every slot, or else when the count would be
negative, and leaves the table as it is; otherwise it changes the map at its
topic only. A rebuild keeps the map and finds a free slot for every topic. -/
theorem table_refines_map (fits : window.base + window.capacity ≤ slots.size)
    (power : window.capacity.isPowerOfTwo)
    (empty : ∀ offset < window.capacity, window.slot slots offset = .empty) (calls : List Call)
    (small : AllSmall window calls ⟨slots, 0⟩) :
    ∃ counts : Nat →₀ Nat, Represents window (runAll window calls ⟨slots, 0⟩) counts ∧
      Rebuilds window (runAll window calls ⟨slots, 0⟩) counts ∧
      ∀ topic delta, Number.Int32Range delta → counts topic + delta ≤ 2147483647 →
        Adds window topic delta (runAll window calls ⟨slots, 0⟩) counts := by
  obtain ⟨counts, keeps⟩ := (keeps_empty fits power empty).runAll calls small
  refine ⟨counts, keeps.represents, ?_, fun topic delta range within => keeps.adds range within⟩
  exact keeps.wellFormed.sound.rebuilds keeps.counts _

/-- Two topics of one home fill a window between slots of
others; a third one is refused until one of them leaves. -/
theorem table_refines_map_crowded :
    let window : Window := ⟨1, 2⟩
    let slots : Array Slot := #[.occupied 9 9, .empty, .empty, .tombstone]
    let calls : List Call :=
      [.add 3 5, .add 5 1, .add 7 1, .add 3 (-6), .add 3 (-5), .rehash, .add 7 2147483647]
    AllSmall window calls ⟨slots, 0⟩ ∧
      ∃ counts : Nat →₀ Nat, Represents window (runAll window calls ⟨slots, 0⟩) counts ∧
        Rebuilds window (runAll window calls ⟨slots, 0⟩) counts ∧
        ∀ topic delta, Number.Int32Range delta → counts topic + delta ≤ 2147483647 →
          Adds window topic delta (runAll window calls ⟨slots, 0⟩) counts := by
  intro window slots calls
  have small : AllSmall window calls ⟨slots, 0⟩ := by
    decide +kernel
  have empty : ∀ offset < window.capacity, window.slot slots offset = .empty := by
    decide
  exact ⟨small, table_refines_map (by decide) ⟨1, rfl⟩ empty calls small⟩

end Running

end LatentTopics.Table
