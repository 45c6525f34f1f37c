import Mathlib
import LatentTopics.Number
import LatentTopics.Proofs.Arrays

/-! Bisection finds where a predicate stops holding, and with
it the position of a key among strictly increasing keys. -/
namespace LatentTopics.Search

def Downward (holds : Nat → Bool) (size : Nat) : Prop :=
  ∀ first second, first ≤ second → second < size → holds second = true → holds first = true

structure Divides (holds : Nat → Bool) (first size index : Nat) : Prop where
  least : first ≤ index
  most : index ≤ size
  before : ∀ other, first ≤ other → other < index → holds other = true
  after : ∀ other, index ≤ other → other < size → holds other = false

theorem splitFrom_divides {holds : Nat → Bool} {bound : Nat} (downward : Downward holds bound)
    (rounds first size : Nat) (enough : size ≤ rounds) (inside : first + size ≤ bound) :
    Divides holds first (first + size) (splitFrom holds rounds first size) := by
  induction rounds generalizing first size with
  | zero =>
      rw [splitFrom]
      exact ⟨le_rfl, by omega, fun other _ _ => by omega, fun other _ _ => by omega⟩
  | succ rounds ih =>
      rw [splitFrom]
      by_cases done : size = 0
      · rw [if_pos done]
        exact ⟨le_rfl, by omega, fun other _ _ => by omega, fun other _ _ => by omega⟩
      rw [if_neg done]
      dsimp only
      -- What holds in the middle holds before it, and what fails there fails behind it.
      by_cases here : holds (first + size / 2) = true
      · rw [if_pos here]
        have rest := ih (first + size / 2 + 1) (size - size / 2 - 1) (by omega) (by omega)
        have shape : first + size / 2 + 1 + (size - size / 2 - 1) = first + size := by omega
        rw [shape] at rest
        refine ⟨by have := rest.least; omega, rest.most, ?_, rest.after⟩
        intro other from_first below
        by_cases late : first + size / 2 + 1 ≤ other
        · exact rest.before other late below
        · exact downward other (first + size / 2) (by omega) (by omega) here
      · rw [if_neg here]
        have rest := ih first (size / 2) (by omega) (by omega)
        refine ⟨rest.least, by have := rest.most; omega, rest.before, ?_⟩
        intro other late below
        by_cases early : other < first + size / 2
        · exact rest.after other late early
        · by_contra holdsThere
          apply here
          exact downward (first + size / 2) other (by omega) (by omega) (by simpa using holdsThere)

theorem split_divides {holds : Nat → Bool} {size : Nat} (downward : Downward holds size) :
    Divides holds 0 size (split holds size) := by
  have divides := splitFrom_divides downward size 0 size le_rfl (by omega)
  rwa [Nat.zero_add] at divides

theorem Divides.unique {holds : Nat → Bool} {size index other : Nat}
    (divides : Divides holds 0 size index) (inside : other < size) (here : holds other = false)
    (before : ∀ earlier < other, holds earlier = true) :
    index = other := by
  rcases Nat.lt_trichotomy index other with less | same | more
  · have fails := divides.after index le_rfl (by omega)
    rw [before index less] at fails
    cases fails
  · exact same
  · rw [divides.before other (Nat.zero_le _) more] at here
    cases here

section Keys

variable {keys : Array Nat}

def Increasing (keys : Array Nat) : Prop :=
  keys.toList.Pairwise (· < ·)

theorem Increasing.lt (increasing : Increasing keys) {first second : Nat} (before : first < second)
    (inside : second < keys.size) : keys.getD first 0 < keys.getD second 0 := by
  have ordered := List.pairwise_iff_getElem.mp increasing first second
    (by simpa using before.trans inside)
    (by simpa using inside) before
  simpa [Array.getD_eq_getD_getElem?, inside, before.trans inside] using ordered

theorem Increasing.downward (increasing : Increasing keys) (key : Nat) :
    Downward (fun i => keys.getD i 0 < key) keys.size := by
  intro first second order inside below
  simp only [decide_eq_true_eq] at below ⊢
  rcases Nat.eq_or_lt_of_le order with same | before
  · rwa [same]
  · exact (increasing.lt before inside).trans below

theorem Increasing.find?_eq_some (increasing : Increasing keys) (key index : Nat) :
    find? keys key = some index ↔ keys[index]? = some key := by
  have divides := split_divides (increasing.downward key)
  rw [find?]
  constructor
  · intro found
    split at found
    · next here => exact Option.some.inj found ▸ here
    · cases found
  · intro here
    obtain ⟨inside, value⟩ := Array.getElem?_eq_some_iff.mp here
    have own : keys.getD index 0 = key := Arrays.getD_of_getElem? here 0
    have place : split (fun i => keys.getD i 0 < key) keys.size = index := by
      apply divides.unique inside
      · simp [own]
      · intro earlier before
        have := increasing.lt before inside
        simpa [own] using this
    rw [place, if_pos here]

theorem Increasing.find?_eq_none (increasing : Increasing keys) (key : Nat) :
    find? keys key = none ↔ key ∉ keys := by
  constructor
  · intro missing member
    obtain ⟨index, here⟩ := Array.getElem?_of_mem member
    rw [(increasing.find?_eq_some key index).mpr here] at missing
    cases missing
  · intro missing
    cases found : find? keys key with
    | none => rfl
    | some index =>
        exact absurd (Array.mem_of_getElem? ((increasing.find?_eq_some key index).mp found)) missing

end Keys

end LatentTopics.Search
