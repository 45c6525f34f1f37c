import Mathlib
import LatentTopics.Proofs.Alias.Proposals
import LatentTopics.Proofs.Alias.Settling
import LatentTopics.Proofs.Floats

/-! Masses of weights. When the weights have a positive sum some weight is positive, and one that is
not has no share of it. So the masses always sum to the total, and each of them is the share of its
weight with what was handed out or taken back. -/
namespace LatentTopics.Alias

theorem exists_positive_of_foldl (weights : List Float) {sum : Float}
    (positive : 0.0 < weights.foldl (· + ·) sum) :
    0.0 < sum ∨ ∃ weight ∈ weights, 0.0 < weight := by
  induction weights generalizing sum with
  | nil => exact Or.inl positive
  | cons weight weights ih =>
      rcases ih positive with first | ⟨other, member, above⟩
      · rcases Floats.zero_lt_add first with sum | own
        · exact Or.inl sum
        · exact Or.inr ⟨weight, List.mem_cons_self, own⟩
      · exact Or.inr ⟨other, List.mem_cons_of_mem _ member, above⟩

theorem exists_positive {weights : List Float} (positive : 0.0 < weightSum weights) :
    ∃ weight ∈ weights, 0.0 < weight := by
  rcases exists_positive_of_foldl weights positive with zero | found
  · exact absurd zero (by decide +kernel)
  · exact found

theorem positive_of_one (total : Float) : (shareOf 1.0 total).positive = true :=
  decide_eq_true (by decide +kernel : (0.0 : Float) < 1.0)

theorem countP_shares_pos {weights : List Float} (nonempty : weights ≠ []) :
    0 < (shares weights).countP Share.positive := by
  rw [List.countP_pos_iff, shares]
  dsimp only
  split
  · next normal =>
    obtain ⟨weight, member, above⟩ :=
      exists_positive (of_decide_eq_true (Bool.and_eq_true_iff.mp normal).1)
    refine ⟨_, List.mem_map_of_mem member, ?_⟩
    rw [clamp, if_pos above]
    exact decide_eq_true above
  · obtain ⟨weight, weights, rfl⟩ := List.exists_cons_of_ne_nil nonempty
    exact ⟨_, List.mem_map_of_mem List.mem_cons_self, positive_of_one _⟩

theorem mass_of_not_positive {weights : List Float} {share : Share}
    (member : share ∈ shares weights) (zero : share.positive = false) : share.mass = 0 := by
  rw [shares] at member
  dsimp only at member
  split at member
  · next normal =>
    obtain ⟨positive, finite⟩ := Bool.and_eq_true_iff.mp normal
    obtain ⟨weight, _, rfl⟩ := List.mem_map.mp member
    by_cases above : 0.0 < weight
    · rw [clamp, if_pos above] at zero
      exact absurd above (of_decide_eq_false zero)
    · rw [clamp, if_neg above, shareOf]
      dsimp only
      rw [Floats.truncate_zero_share (of_decide_eq_true positive) finite, Nat.zero_min]
  · obtain ⟨weight, _, rfl⟩ := List.mem_map.mp member
    rw [positive_of_one] at zero
    cases zero

structure Quantizes (weights : List Float) : Prop where
  total : (quantize weights).sum = totalMass
  gains : Share.massSum (shares weights) ≤ totalMass →
    ∀ (index : Nat) (share : Share), (shares weights)[index]? = some share →
    (quantize weights).getD index 0 = share.mass + if share.positive then
      Share.gain (totalMass - Share.massSum (shares weights)) index (shares weights) else 0
  losses : totalMass < Share.massSum (shares weights) → ∀ (index : Nat) (share : Share),
    (shares weights)[index]? = some share → (quantize weights).getD index 0 ≤ share.mass

theorem quantizes {weights : List Float} (nonempty : weights ≠ []) : Quantizes weights := by
  obtain ⟨total, gains, losses⟩ := Share.settle_spec (countP_shares_pos nonempty) fun _ member =>
    mass_of_not_positive member
  refine ⟨total, ?_, ?_⟩
  · intro short index share here
    rw [quantize, List.getD_eq_getElem?_getD, List.getElem?_map, gains short index share here]
    by_cases positive : share.positive
    · rw [if_pos positive, if_pos positive]
      rfl
    · rw [if_neg positive, if_neg positive]
      rfl
  · intro long index share here
    obtain ⟨left, there, less⟩ := (losses long).getElem? here
    rw [quantize, List.getD_eq_getElem?_getD, List.getElem?_map, there]
    exact less

end LatentTopics.Alias
