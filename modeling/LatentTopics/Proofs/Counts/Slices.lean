import Mathlib
import LatentTopics.Counts.Slice
import LatentTopics.Proofs.Search
import LatentTopics.Proofs.Row.Addition

/-! Slices. A valid slice has a row for each of its words,
and its words are in order, so that a word has one row. -/
namespace LatentTopics.Slice

structure Valid (slice : Slice) : Prop where
  increasing : Search.Increasing slice.words
  arena : slice.arena.Valid
  rows : slice.arena.layouts.size = slice.words.size

structure SameShape (before after : Slice) : Prop where
  id : after.id = before.id
  words : after.words = before.words
  numTopics : after.numTopics = before.numTopics
  kinds : after.arena.kinds = before.arena.kinds

theorem SameShape.refl (slice : Slice) : SameShape slice slice :=
  ⟨rfl, rfl, rfl, rfl⟩

theorem SameShape.trans {first second third : Slice} (before : SameShape first second)
    (after : SameShape second third) : SameShape first third :=
  ⟨after.id.trans before.id, after.words.trans before.words, after.numTopics.trans before.numTopics,
    after.kinds.trans before.kinds⟩

structure Assigns (word topic : Nat) (count : Int) (before after : Slice) : Prop where
  valid : Valid after
  shape : SameShape before after
  counts : ∀ other position,
    after.count other position =
      if other = word ∧ position = topic then count else before.count other position

def Admits (slice : Slice) (word topic : Nat) : Prop :=
  ∃ index : Nat, slice.words[index]? = some word ∧ slice.arena.Admits index topic

variable {slice : Slice} {word topic : Nat} {delta : Int}

theorem Valid.index?_eq_some (valid : Valid slice) (word index : Nat) :
    slice.index? word = some index ↔ slice.words[index]? = some word :=
  valid.increasing.find?_eq_some word index

theorem Valid.index?_eq_none (valid : Valid slice) (word : Nat) :
    slice.index? word = none ↔ word ∉ slice.words :=
  valid.increasing.find?_eq_none word

theorem Valid.contains_iff (valid : Valid slice) (word : Nat) :
    slice.contains word = true ↔ word ∈ slice.words := by
  rw [contains, Option.isSome_iff_ne_none, Ne, valid.index?_eq_none, not_not]

theorem Valid.count_eq (valid : Valid slice) {index : Nat} (here : slice.words[index]? = some word)
    (topic : Nat) :
    slice.count word topic = slice.arena.get index topic := by
  rw [count, (valid.index?_eq_some word index).mpr here]

theorem Valid.count_of_not_mem (valid : Valid slice) (missing : word ∉ slice.words) (topic : Nat) :
    slice.count word topic = 0 := by
  rw [count, (valid.index?_eq_none word).mpr missing]

theorem Valid.count_range (valid : Valid slice) (word topic : Nat) :
    Number.Int32Range (slice.count word topic) := by
  by_cases member : word ∈ slice.words
  · obtain ⟨index, here⟩ := Array.getElem?_of_mem member
    rw [valid.count_eq here]
    exact valid.arena.get_range index topic
  · rw [valid.count_of_not_mem member]
    exact Number.Int32Range.zero

theorem Valid.assigns (valid : Valid slice) {index : Nat} (here : slice.words[index]? = some word)
    {count : Int} {arena : Arena} (assigns : Arena.Assigns index topic count slice.arena arena) :
    Assigns word topic count slice ⟨slice.id, slice.words, arena⟩ := by
  have sizes : arena.layouts.size = slice.arena.layouts.size := by
    have same := congrArg Array.size assigns.kinds
    rwa [Arena.kinds, Arena.kinds, Array.size_map, Array.size_map] at same
  have after : Valid ⟨slice.id, slice.words, arena⟩ :=
    ⟨valid.increasing, assigns.valid, sizes.trans valid.rows⟩
  refine ⟨after, ⟨rfl, rfl, assigns.numTopics, assigns.kinds⟩, ?_⟩
  intro other position
  by_cases member : other ∈ slice.words
  · obtain ⟨row, there⟩ := Array.getElem?_of_mem member
    have samePlace : row = index ↔ other = word := by
      constructor
      · rintro rfl
        rw [here] at there
        exact (Option.some.inj there).symm
      · rintro rfl
        have first := (valid.index?_eq_some other row).mpr there
        rw [(valid.index?_eq_some other index).mpr here] at first
        exact (Option.some.inj first).symm
    rw [after.count_eq there, valid.count_eq there, assigns.counts]
    simp only [samePlace]
  · rw [after.count_of_not_mem member, valid.count_of_not_mem member, if_neg]
    rintro ⟨rfl, _⟩
    exact member (Array.mem_of_getElem? here)

theorem add_ok (valid : Valid slice) (admits : Admits slice word topic)
    (range : Number.Int32Range delta) (nonneg : 0 ≤ slice.count word topic + delta) :
    ∃ after, add word topic delta slice = .ok () after ∧
      Assigns word topic (Number.narrow (slice.count word topic + delta)) slice after := by
  obtain ⟨index, here, room⟩ := admits
  rw [valid.count_eq here] at nonneg ⊢
  obtain ⟨arena, added, assigns⟩ := Arena.add_ok valid.arena room range nonneg
  refine ⟨_, ?_, valid.assigns here assigns⟩
  simp only [add, (valid.increasing.find?_eq_some word index).mpr here, added]

theorem add_negative (valid : Valid slice) (admits : Admits slice word topic)
    (negative : slice.count word topic + delta < 0) :
    add word topic delta slice =
        .error (.negativeCount topic (slice.count word topic + delta)) slice := by
  obtain ⟨index, here, room⟩ := admits
  rw [valid.count_eq here] at negative ⊢
  simp only [add, (valid.increasing.find?_eq_some word index).mpr here,
    Arena.add_negative valid.arena room negative]

theorem add_unknown (valid : Valid slice) (missing : word ∉ slice.words) (topic : Nat)
    (delta : Int) :
    add word topic delta slice = .error (.unknownWord word slice.id) slice := by
  simp only [add, (valid.increasing.find?_eq_none word).mpr missing]

/-- An addition sets one count, to the sum as far as 32 bits
hold it, or is refused and changes nothing. -/
theorem add_outcome (valid : Valid slice) (word topic : Nat) (range : Number.Int32Range delta) :
    (∃ after, add word topic delta slice = .ok () after ∧ 0 ≤ slice.count word topic + delta ∧
      Assigns word topic (Number.narrow (slice.count word topic + delta)) slice after) ∨
      ∃ fault, add word topic delta slice = .error fault slice := by
  by_cases member : word ∈ slice.words
  · obtain ⟨index, here⟩ := Array.getElem?_of_mem member
    have found := (valid.increasing.find?_eq_some word index).mpr here
    rw [valid.count_eq here]
    rcases Arena.add_outcome valid.arena index topic range with ⟨arena, added, nonneg,
      assigns⟩ | ⟨fault, refused⟩
    · exact Or.inl ⟨_, by simp only [add, found, added], nonneg, valid.assigns here assigns⟩
    · exact Or.inr ⟨fault, by simp only [add, found, refused]⟩
  · exact Or.inr ⟨_, add_unknown valid member topic delta⟩

theorem Valid.clear (valid : Valid slice) : Valid slice.clear := by
  refine ⟨valid.increasing, valid.arena.clear, ?_⟩
  rw [Slice.clear, Arena.clear, Array.size_map]
  exact valid.rows

theorem clear_shape (slice : Slice) : SameShape slice slice.clear :=
  ⟨rfl, rfl, rfl, Arena.kinds_clear slice.arena⟩

end LatentTopics.Slice
