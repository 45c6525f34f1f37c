import Mathlib
import LatentTopics.Number

/-! Numbers of 32 bits, powers of two, and sorting by a number. -/
namespace LatentTopics.Number

def Int32Range (count : Int) : Prop :=
  -2147483648 ≤ count ∧ count < 2147483648

theorem Int32Range.zero : Int32Range 0 :=
  ⟨by omega, by omega⟩

theorem narrow_range (count : Int) : Int32Range (narrow count) := by
  rw [narrow_eq_bmod, Int32Range, Int.bmod_def]
  omega

theorem Int32Range.narrow_eq {count : Int} (range : Int32Range count) : narrow count = count :=
  narrow_eq_self range.1 range.2

theorem narrow_add_narrow (first second : Int) :
    narrow (narrow first + second) = narrow (first + second) := by
  simp only [narrow_eq_bmod, Int.bmod_add_bmod]

theorem narrow_ne_zero {count : Int} (positive : 0 < count) (below : count < 4294967296) :
    narrow count ≠ 0 := by
  rw [narrow_eq_bmod, Int.bmod_def]
  omega

open private Nat.nextPowerOfTwo.go from Init.Data.Nat.Power2.Basic

theorem le_doubled (number power : Nat) (positive : power > 0) :
    number ≤ Nat.nextPowerOfTwo.go number power positive := by
  unfold Nat.nextPowerOfTwo.go
  split
  · exact le_doubled number (power * 2) _
  · next enough => exact Nat.le_of_not_lt enough
termination_by number - power
decreasing_by omega

theorem le_nextPowerOfTwo (number : Nat) : number ≤ number.nextPowerOfTwo :=
  le_doubled number 1 _

theorem sorted_mergeSort {α : Type} (key : α → Nat) (entries : List α) :
    (entries.mergeSort fun a b => key a ≤ key b).Pairwise fun a b => key a ≤ key b := by
  apply (List.pairwise_mergeSort _ _ entries).imp
  · intro first second before
    simpa using before
  · intro first second third before after
    simp only [decide_eq_true_eq] at before after ⊢
    omega
  · intro first second
    simp only [Bool.or_eq_true, decide_eq_true_eq]
    omega

theorem eq_of_ordered {α : Type} (before : α → α → Prop)
    (asymm : ∀ first second, before first second → ¬ before second first) {list other : List α}
    (ordered : list.Pairwise before) (ordered' : other.Pairwise before)
    (same : ∀ entry, entry ∈ list ↔ entry ∈ other) : list = other := by
  have distinct : ∀ {list : List α}, list.Pairwise before → list.Nodup := by
    intro list ordered
    apply ordered.imp
    rintro first _ less rfl
    exact asymm first first less less
  have permuted : list.Perm other :=
    (List.perm_ext_iff_of_nodup (distinct ordered) (distinct ordered')).mpr same
  exact permuted.eq_of_pairwise (fun _ _ _ _ less more => absurd more (asymm _ _ less))
    ordered ordered'

end LatentTopics.Number
