import Mathlib
import LatentTopics.Proofs.Alias.Filling

/-! Counting draws. The values of a bucket go to its own entry below the threshold and to its
partner from there on, so that the number of values that draw an entry is the sum of what the
buckets give to it. For the buckets built from masses this is the entry's mass. -/
namespace LatentTopics.Alias

theorem pick_eq (buckets : Array Bucket) {index size value : Nat} (below : index < size)
    (lower : start index size ≤ value) (upper : value < start (index + 1) size) :
    pick buckets 0 size value =
      if value < (buckets.getD index default).threshold then index
      else (buckets.getD index default).partner := by
  simp only [pick, bucketOf_eq below lower upper, Nat.zero_add]

theorem sum_draws_of_range (buckets : Array Bucket) {index size : Nat} (below : index < size)
    (range : (buckets.getD index default).WithinRange size index) (entry : Nat) :
    ∑ value ∈ Finset.Ico (start index size) (start (index + 1) size),
        (if pick buckets 0 size value = entry then 1 else 0) =
      (buckets.getD index default).given size index entry := by
  rw [← Finset.sum_Ico_consecutive _ range.lower range.upper]
  have own : ∀ value ∈ Finset.Ico (start index size) (buckets.getD index default).threshold,
      (if pick buckets 0 size value = entry then 1 else 0) = if entry = index then 1 else 0 := by
    intro value member
    obtain ⟨lower, upper⟩ := Finset.mem_Ico.mp member
    rw [pick_eq buckets below lower (Nat.lt_of_lt_of_le upper range.upper), if_pos upper]
    simp only [eq_comm]
  have other : ∀ value ∈ Finset.Ico (buckets.getD index default).threshold (start (index + 1) size),
      (if pick buckets 0 size value = entry then 1 else 0) =
        if entry = (buckets.getD index default).partner then 1 else 0 := by
    intro value member
    obtain ⟨lower, upper⟩ := Finset.mem_Ico.mp member
    rw [pick_eq buckets below (Nat.le_trans range.lower lower) upper, if_neg (Nat.not_lt.mpr lower)]
    simp only [eq_comm]
  rw [Finset.sum_congr rfl own, Finset.sum_congr rfl other, Finset.sum_const, Finset.sum_const,
    Nat.card_Ico, Nat.card_Ico, Bucket.given]
  simp only [smul_eq_mul, mul_ite, mul_one, mul_zero]

theorem sum_draws (buckets : Array Bucket) (size : Nat)
    (ranges : ∀ index < size, (buckets.getD index default).WithinRange size index)
    (entry count : Nat) (within : count ≤ size) :
    ∑ value ∈ Finset.range (start count size),
        (if pick buckets 0 size value = entry then 1 else 0) =
      ∑ index ∈ Finset.range count, (buckets.getD index default).given size index entry := by
  induction count with
  | zero => rw [start_zero, Finset.sum_range_zero, Finset.sum_range_zero]
  | succ count ih =>
      have below : count < size := within
      rw [Finset.sum_range_succ, ← ih below.le,
        ← sum_draws_of_range buckets below (ranges count below) entry]
      exact (Finset.sum_range_add_sum_Ico _ (start_le_start (Nat.le_succ count) size)).symm

theorem card_draws (buckets : Array Bucket) {size : Nat} (positive : 0 < size)
    (ranges : ∀ index < size, (buckets.getD index default).WithinRange size index) (entry : Nat) :
    ((Finset.range totalMass).filter fun value => pick buckets 0 size value = entry).card =
      ∑ index ∈ Finset.range size, (buckets.getD index default).given size index entry := by
  rw [Finset.card_filter, ← sum_draws buckets size ranges entry size le_rfl,
    start_size size positive]

theorem bucketsOfMasses_balanced (masses : List Nat) :
    Filling.Balanced masses.length (fun index => masses.getD index 0)
      ((Filling.start masses).finish masses.length) :=
  (Filling.start_balanced masses).run _

theorem bucketsOfMasses_withinRange (masses : List Nat) {index : Nat}
    (below : index < masses.length) :
    ((bucketsOfMasses masses).getD index default).WithinRange masses.length index :=
  (bucketsOfMasses_balanced masses).ranges index below

theorem size_bucketsOfMasses (masses : List Nat) : (bucketsOfMasses masses).size = masses.length :=
  (bucketsOfMasses_balanced masses).bucketsSize

theorem sum_getD (masses : List Nat) :
    ∑ index ∈ Finset.range masses.length, masses.getD index 0 = masses.sum := by
  induction masses with
  | nil => rfl
  | cons mass masses ih =>
      rw [List.length_cons, Finset.sum_range_succ', List.sum_cons, ← ih, Nat.add_comm]
      simp

/-- What an alias table owes to the masses that it is built from. -/
structure Reproduces (masses : List Nat) : Prop where
  noUnderflow : ∀ (steps poor rich : Nat) (low high : List Nat),
    let filling := (Filling.start masses).run masses.length steps
    filling.low = poor :: low → filling.high = rich :: high →
      filling.mass poor ≤ capacity poor masses.length ∧
        capacity poor masses.length - filling.mass poor ≤ filling.mass rich
  drained : ((Filling.start masses).finish masses.length).low = [] ∧
    ((Filling.start masses).finish masses.length).high = []
  size : (bucketsOfMasses masses).size = masses.length
  threshold : ∀ index < masses.length,
    start index masses.length ≤ ((bucketsOfMasses masses).getD index default).threshold ∧
      ((bucketsOfMasses masses).getD index default).threshold ≤
        start index masses.length + capacity index masses.length
  partner : ∀ index < masses.length, ((bucketsOfMasses masses).getD index default).partner <
    masses.length
  draws : ∀ entry, ((Finset.range totalMass).filter fun value =>
    pick (bucketsOfMasses masses) 0 masses.length value = entry).card = masses.getD entry 0
  neverDrawn : ∀ entry, masses.getD entry 0 = 0 → ∀ value < totalMass,
    pick (bucketsOfMasses masses) 0 masses.length value ≠ entry

theorem Filling.Balanced.noUnderflow {size : Nat} {masses : Nat → Nat} {filling : Filling}
    (balanced : Balanced size masses filling) {poor rich : Nat} {low high : List Nat}
    (lowHead : filling.low = poor :: low) (highHead : filling.high = rich :: high) :
    filling.mass poor ≤ capacity poor size ∧
      capacity poor size - filling.mass poor ≤ filling.mass rich := by
  have deficit := balanced.poor poor (lowHead ▸ List.mem_cons_self)
  have surplus := balanced.rich rich (highHead ▸ List.mem_cons_self)
  exact ⟨deficit.le, deficit_le_surplus surplus poor _⟩

theorem card_draws_of_masses (masses : List Nat) (positive : 0 < masses.length)
    (drained : ((Filling.start masses).finish masses.length).pending = []) (entry : Nat) :
    ((Finset.range totalMass).filter fun value =>
      pick (bucketsOfMasses masses) 0 masses.length value = entry).card = masses.getD entry 0 := by
  have balanced := bucketsOfMasses_balanced masses
  rw [card_draws _ positive fun index => bucketsOfMasses_withinRange masses]
  by_cases below : entry < masses.length
  · rw [← balanced.shares entry below]
    refine Finset.sum_congr rfl fun index _ => ?_
    simp only [Filling.share, drained, List.not_mem_nil, if_false]
    rfl
  · rw [List.getD_eq_default _ _ (Nat.le_of_not_lt below)]
    refine Finset.sum_eq_zero fun index member => ?_
    have indexBelow := Finset.mem_range.mp member
    have partner := (bucketsOfMasses_withinRange masses indexBelow).partner
    have notOwn : entry ≠ index := by omega
    have notPartner : entry ≠ ((bucketsOfMasses masses).getD index default).partner := by omega
    simp only [Bucket.given, notOwn, notPartner, if_false, Nat.add_zero]

/-- Masses that sum to the number of values are drawn exactly as often as they say. -/
theorem masses_reproduced (masses : List Nat) (nonempty : masses ≠ [])
    (total : masses.sum = totalMass) : Reproduces masses := by
  have positive : 0 < masses.length := List.length_pos_iff.mpr nonempty
  have balanced := bucketsOfMasses_balanced masses
  have drained := balanced.drained positive (by rw [sum_getD, total])
    (Filling.run_empties _ (Filling.start masses) le_rfl)
  -- With no entry pending the shares are what the buckets give.
  have noPending : ((Filling.start masses).finish masses.length).pending = [] := by
    rw [Filling.pending, drained.1, drained.2, List.append_nil]
  have draws := card_draws_of_masses masses positive noPending
  refine {
    noUnderflow := ?_
    drained := drained
    size := size_bucketsOfMasses masses
    threshold := ?_
    partner := fun index below => (bucketsOfMasses_withinRange masses below).partner
    draws := draws
    neverDrawn := ?_ }
  · intro steps poor rich low high filling lowHead highHead
    exact ((Filling.start_balanced masses).run steps).noUnderflow lowHead highHead
  · intro index below
    have range := bucketsOfMasses_withinRange masses below
    exact ⟨range.lower, start_succ index _ ▸ range.upper⟩
  -- An entry that is drawn as often as its mass says is never drawn without mass.
  · intro entry empty value inside drawn
    have none := draws entry
    rw [empty, Finset.card_eq_zero] at none
    exact Finset.notMem_empty value
      (none ▸ Finset.mem_filter.mpr ⟨Finset.mem_range.mpr inside, drawn⟩)

/-- Three entries, of which the second has no mass; three does not divide the values evenly. -/
theorem masses_reproduced_three : [3, 0, 2147483644] ≠ ([] : List Nat) ∧
    [3, 0, 2147483644].sum = totalMass ∧ Reproduces [3, 0, 2147483644] :=
  ⟨by decide, by decide, masses_reproduced [3, 0, 2147483644] (by decide) (by decide)⟩

end LatentTopics.Alias
