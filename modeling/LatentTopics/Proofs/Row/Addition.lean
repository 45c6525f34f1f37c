import Mathlib
import LatentTopics.Proofs.Row.Pairs

/-! Adding to one count of one row. The other rows keep their counts, whatever the row is. -/
namespace LatentTopics.Arena

inductive Admits (arena : Arena) (index topic : Nat) : Prop where
  | dense (offset : Nat) (here : arena.layouts[index]? = some (.dense offset))
      (below : topic < arena.numTopics)
  | sparse (window : Window) (tombstones : Nat)
      (here : arena.layouts[index]? = some (.sparse window tombstones))
      (room : Table.HasRoom arena.slots window topic)

structure Assigns (index topic : Nat) (count : Int) (before after : Arena) : Prop where
  valid : Valid after
  counts : ∀ row other, after.get row other =
    if row = index ∧ other = topic then count else before.get row other
  kinds : after.kinds = before.kinds
  numTopics : after.numTopics = before.numTopics

variable {arena : Arena} {index topic : Nat} {delta : Int}

theorem assigns_of_rows {after : Arena} {count : Int} (topics : after.numTopics = arena.numTopics)
    (kinds : after.kinds = arena.kinds)
    (apart : ∀ (first second : Nat) (layout other : Layout), first ≠ second →
      after.layouts[first]? = some layout → after.layouts[second]? = some other →
      Layout.Apart arena.numTopics layout other)
    (rows : ∀ (row : Nat) (layout : Layout), after.layouts[row]? = some layout →
      Placed after layout ∧ ∀ other, (after.readAs layout).get other =
        if row = index ∧ other = topic then count else arena.get row other)
    (inside : index < arena.layouts.size) : Assigns index topic count arena after := by
  have size : after.layouts.size = arena.layouts.size := by
    have sizes := congrArg Array.size kinds
    rwa [Arena.kinds, Arena.kinds, Array.size_map, Array.size_map] at sizes
  constructor
  · constructor
    · exact fun row layout here => (rows row layout here).1
    · rw [topics]
      exact apart
  · intro row other
    cases layout : after.layouts[row]? with
    | none =>
        have outside : arena.layouts.size ≤ row := size ▸ Array.getElem?_eq_none_iff.mp layout
        rw [get_of_none layout, if_neg (by omega), get_of_none (Array.getElem?_eq_none outside)]
    | some here => rw [get_of_layout layout, (rows row here layout).2]
  · exact kinds
  · exact topics

/-- Two dense rows share no cell, so that only the row's own cell changes. -/
theorem Valid.getD_setDense (valid : Valid arena) {offset : Nat}
    (here : arena.layouts[index]? = some (.dense offset)) (below : topic < arena.numTopics)
    {row other position : Nat} (there : arena.layouts[row]? = some (.dense other))
    (within : position < arena.numTopics) {count : Int} :
    (arena.cells.setIfInBounds (offset + topic) count).getD (other + position) 0 =
      if row = index ∧ position = topic then count else arena.cells.getD (other + position) 0 := by
  have fits : offset + topic < arena.cells.size := by
    have := (valid.placed index _ here).1
    omega
  by_cases same : row = index
  · subst same
    obtain rfl : offset = other := by
      rw [here] at there
      exact Layout.dense.inj (Option.some.inj there)
    by_cases own : position = topic
    · subst own
      rw [Arrays.getD_set_self _ fits, if_pos ⟨rfl, rfl⟩]
    · rw [Arrays.getD_set_ne _ (by omega), if_neg (fun both => own both.2)]
  · have apart : offset + arena.numTopics ≤ other ∨ other + arena.numTopics ≤ offset :=
      valid.apart index row _ _ (Ne.symm same) here there
    rw [Arrays.getD_set_ne _ (by omega), if_neg (fun both => same both.1)]

theorem Valid.setDense (valid : Valid arena) {offset : Nat}
    (here : arena.layouts[index]? = some (.dense offset)) (below : topic < arena.numTopics)
    {count : Int} (range : Number.Int32Range count) :
    Assigns index topic count arena
      ⟨arena.numTopics, arena.cells.setIfInBounds (offset + topic) count, arena.slots,
        arena.layouts⟩ := by
  refine assigns_of_rows ?_ ?_ valid.apart ?_ (Array.getElem?_eq_some_iff.mp here).1
  · rfl
  · rfl
  · intro row layout (there : arena.layouts[row]? = some layout)
    cases layout with
    | dense other =>
        have old := valid.placed row _ there
        refine ⟨⟨?_, ?_⟩, ?_⟩
        · simpa using old.1
        · intro position within
          dsimp only at within ⊢
          rw [valid.getD_setDense here below there within]
          split
          · exact range
          · exact old.2 position within
        · intro position
          rw [get_of_layout there]
          simp only [readAs, Row.get]
          by_cases within : position < arena.numTopics
          · rw [if_pos within, if_pos within, valid.getD_setDense here below there within]
          · rw [if_neg within, if_neg within, if_neg (by rintro ⟨_, rfl⟩; exact within below)]
    | sparse window tombstones =>
        refine ⟨valid.placed row _ there, ?_⟩
        intro other
        rw [get_of_layout there, if_neg]
        · rfl
        · rintro ⟨rfl, _⟩
          rw [here] at there
          cases there

section Sparse

variable {window : Window} {tombstones left : Nat}

theorem Valid.apart_retag (valid : Valid arena)
    (here : arena.layouts[index]? = some (.sparse window tombstones)) {first second : Nat}
    {layout other : Layout} (different : first ≠ second)
    (there : (arena.layouts.setIfInBounds index (.sparse window left))[first]? = some layout)
    (there' : (arena.layouts.setIfInBounds index (.sparse window left))[second]? = some other) :
    Layout.Apart arena.numTopics layout other := by
  have inside : index < arena.layouts.size := (Array.getElem?_eq_some_iff.mp here).1
  rcases Arrays.getElem?_set_cases inside there with ⟨rfl, rfl⟩ | ⟨_, old⟩
  · rcases Arrays.getElem?_set_cases inside there' with ⟨rfl, _⟩ | ⟨_, old'⟩
    · exact absurd rfl different
    · have apart := valid.apart first second _ _ different here old'
      cases other <;> exact apart
  · rcases Arrays.getElem?_set_cases inside there' with ⟨rfl, rfl⟩ | ⟨_, old'⟩
    · have apart := valid.apart first second _ _ different old here
      cases layout <;> exact apart
    · exact valid.apart first second _ _ different old old'

theorem kinds_retag (here : arena.layouts[index]? = some (.sparse window tombstones))
    (slots : Array Slot) :
    kinds ⟨arena.numTopics, arena.cells, slots,
        arena.layouts.setIfInBounds index (.sparse window left)⟩ = arena.kinds := by
  apply Array.ext_getElem?
  intro row
  simp only [Arena.kinds, Array.getElem?_map, Array.getElem?_setIfInBounds]
  split
  · next same =>
    subst same
    rw [if_pos (Array.getElem?_eq_some_iff.mp here).1, here]
    rfl
  · rfl

theorem Valid.row_outside (valid : Valid arena) {slots : Array Slot}
    (outside : Table.Outside window arena.slots slots)
    (here : arena.layouts[index]? = some (.sparse window tombstones)) {row : Nat} {layout : Layout}
    (different : row ≠ index) (there : arena.layouts[row]? = some layout) {layouts : Array Layout} :
    Placed ⟨arena.numTopics, arena.cells, slots, layouts⟩ layout ∧
      ∀ topic, (readAs ⟨arena.numTopics, arena.cells, slots, layouts⟩ layout).get topic =
        arena.get row topic := by
  have placed := valid.placed row layout there
  simp only [get_of_layout there]
  cases layout with
  | dense offset => exact ⟨placed, fun topic => rfl⟩
  | sparse other left =>
      have apart : window.base + window.capacity ≤ other.base ∨
          other.base + other.capacity ≤ window.base :=
        valid.apart index row _ _ (Ne.symm different) here there
      have alike := outside.alike apart.symm
      have fits : other.base + other.capacity ≤ slots.size := by
        rw [outside.size]
        exact placed.sound.fits
      exact ⟨placed.alike alike fits, placed.sound.get_alike alike fits⟩

theorem Valid.setSparse (valid : Valid arena)
    (here : arena.layouts[index]? = some (.sparse window tombstones)) {count : Int} {after : Table}
    (assigns : Table.Assigns window topic count ⟨arena.slots, tombstones⟩ after) :
    Assigns index topic count arena ⟨arena.numTopics, arena.cells, after.slots,
      arena.layouts.setIfInBounds index (.sparse window after.tombstones)⟩ := by
  have inside : index < arena.layouts.size := (Array.getElem?_eq_some_iff.mp here).1
  refine assigns_of_rows rfl (kinds_retag here _) (fun _ _ _ _ => valid.apart_retag here) ?_ inside
  intro row layout there
  rcases Arrays.getElem?_set_cases inside there with ⟨rfl, rfl⟩ | ⟨different, old⟩
  · refine ⟨assigns.wellFormed, ?_⟩
    intro other
    rw [get_of_layout here]
    simp only [true_and]
    exact assigns.counts other
  · obtain ⟨placed, same⟩ := valid.row_outside assigns.outside here different old
    refine ⟨placed, ?_⟩
    intro other
    rw [same, if_neg (fun both => different both.1)]

end Sparse

theorem Valid.get_range (valid : Valid arena) (index topic : Nat) :
    Number.Int32Range (arena.get index topic) := by
  cases layout : arena.layouts[index]? with
  | none =>
      rw [get_of_none layout]
      exact Number.Int32Range.zero
  | some here =>
      have placed := valid.placed index here layout
      rw [get_of_layout layout]
      cases here with
      | dense offset =>
          simp only [readAs, Row.get]
          split
          · next below => exact placed.2 topic below
          · exact Number.Int32Range.zero
      | sparse window tombstones => exact placed.sound.get_range topic

theorem add_ok (valid : Valid arena) (admits : Admits arena index topic)
    (range : Number.Int32Range delta) (nonneg : 0 ≤ arena.get index topic + delta) :
    ∃ after, add index topic delta arena = .ok () after ∧
      Assigns index topic (Number.narrow (arena.get index topic + delta)) arena after := by
  rcases admits with ⟨offset, here, below⟩ | ⟨window, tombstones, here, room⟩
  · rw [get_of_layout here] at nonneg ⊢
    simp only [readAs, Row.get, if_pos below] at nonneg ⊢
    refine ⟨_, ?_, valid.setDense here below (Number.narrow_range _)⟩
    simp only [add, here, addDense, if_pos below, if_neg (not_lt.mpr nonneg)]
  · rw [get_of_layout here] at nonneg ⊢
    have placed : Table.WellFormed window ⟨arena.slots, tombstones⟩ := valid.placed index _ here
    obtain ⟨after, added, assigns⟩ := Table.add_ok placed room range nonneg
    refine ⟨_, ?_, valid.setSparse here assigns⟩
    simp only [add, here, addSparse, added]

theorem add_negative (valid : Valid arena) (admits : Admits arena index topic)
    (negative : arena.get index topic + delta < 0) :
    add index topic delta arena =
        .error (.negativeCount topic (arena.get index topic + delta)) arena := by
  rcases admits with ⟨offset, here, below⟩ | ⟨window, tombstones, here, room⟩
  · rw [get_of_layout here] at negative ⊢
    simp only [readAs, Row.get, if_pos below] at negative ⊢
    simp only [add, here, addDense, if_pos below, if_pos negative]
  · rw [get_of_layout here] at negative ⊢
    have placed : Table.WellFormed window ⟨arena.slots, tombstones⟩ := valid.placed index _ here
    have refused := Table.add_negative placed room negative
    simp only [add, here, addSparse, refused]
    rfl

/-- A row takes a topic that it has, and with room every other one: a dense row has a cell for it, a
sparse one fewer topics than slots. -/
theorem Valid.admits (valid : Valid arena) {kind : RowKind} (here : arena.kinds[index]? = some kind)
    (below : topic < arena.numTopics) (topics : Finset Nat)
    (every : ∀ other, arena.get index other ≠ 0 → other ∈ topics)
    (few : ∀ capacity, kind = .sparse capacity → arena.get index topic ≠ 0 ∨
      topics.card < capacity) : Admits arena index topic := by
  rw [kinds, Array.getElem?_map, Option.map_eq_some_iff] at here
  obtain ⟨layout, here, rfl⟩ := here
  cases layout with
  | dense offset => exact .dense offset here below
  | sparse window tombstones =>
      have placed : Table.WellFormed window ⟨arena.slots, tombstones⟩ := valid.placed index _ here
      rcases few window.capacity rfl with present | spare
      · rw [get_of_layout here] at present
        exact .sparse window tombstones here (Or.inl present)
      · refine .sparse window tombstones here (Or.inr (lt_of_le_of_lt ?_ spare))
        apply Row.length_pairs_le_card (valid.row_sound here) topics
        intro other present
        apply every
        rwa [get_of_layout here]

theorem add_refused (valid : Valid arena) (refuses : ¬ Admits arena index topic) (delta : Int) :
    ∃ fault, add index topic delta arena = .error fault arena := by
  cases here : arena.layouts[index]? with
  | none =>
      refine ⟨.breach .indexOutOfRange, ?_⟩
      simp only [add, here]
  | some layout =>
      cases layout with
      | dense offset =>
          have outside : ¬ topic < arena.numTopics :=
            fun below => refuses (.dense offset here below)
          refine ⟨.topicOutOfRange topic arena.numTopics, ?_⟩
          simp only [add, here, addDense, if_neg outside]
      | sparse window tombstones =>
          have placed : Table.WellFormed window ⟨arena.slots, tombstones⟩ :=
            valid.placed index _ here
          have full :=
            Table.add_full placed (fun room => refuses (.sparse window tombstones here room)) delta
          refine ⟨.tableFull topic window.capacity, ?_⟩
          simp only [add, here, addSparse, full]

theorem add_outcome (valid : Valid arena) (index topic : Nat) (range : Number.Int32Range delta) :
    (∃ after, add index topic delta arena = .ok () after ∧ 0 ≤ arena.get index topic + delta ∧
      Assigns index topic (Number.narrow (arena.get index topic + delta)) arena after) ∨
      ∃ fault, add index topic delta arena = .error fault arena := by
  by_cases admits : Admits arena index topic
  · by_cases negative : arena.get index topic + delta < 0
    · exact Or.inr ⟨_, add_negative valid admits negative⟩
    · obtain ⟨after, added, assigns⟩ := add_ok valid admits range (not_lt.mp negative)
      exact Or.inl ⟨after, added, not_lt.mp negative, assigns⟩
  · exact Or.inr (add_refused valid admits delta)

end LatentTopics.Arena
