import Mathlib
import LatentTopics.Alias.Buckets

/-! The buckets of an alias table cut the values of a draw into consecutive ranges, one for each
entry, and the lookup of a value finds the range that it lies in. This holds for every number of
buckets, those that do not divide the values evenly and those that outnumber them included. -/
namespace LatentTopics.Alias

theorem start_zero (size : Nat) : start 0 size = 0 := by
  simp [start]

theorem start_succ (index size : Nat) :
    start (index + 1) size = start index size + capacity index size := by
  have product : (index + 1) * (totalMass / size) = index * (totalMass / size) +
      totalMass / size := by
    ring
  simp only [start, capacity, product]
  split <;> omega

theorem start_size (size : Nat) (positive : 0 < size) : start size size = totalMass := by
  have residue : totalMass % size < size := Nat.mod_lt _ positive
  have division := Nat.div_add_mod totalMass size
  simp only [start]
  omega

theorem start_le_start {first second : Nat} (ordered : first ≤ second) (size : Nat) :
    start first size ≤ start second size := by
  induction second, ordered using Nat.le_induction with
  | base => exact le_rfl
  | succ second _ ih =>
      rw [start_succ]
      omega

theorem capacity_le (index size : Nat) : capacity index size ≤ totalMass / size + 1 := by
  unfold capacity
  split <;> omega

theorem height_le_capacity (index size : Nat) : totalMass / size ≤ capacity index size := by
  unfold capacity
  split <;> omega

theorem start_of_tall {index size : Nat} (tall : index ≤ totalMass % size) :
    start index size = index * (totalMass / size + 1) := by
  simp only [start, Nat.min_eq_left tall]
  ring

theorem start_of_short {index size : Nat} (short : totalMass % size ≤ index) :
    start index size = index * (totalMass / size) + totalMass % size := by
  simp only [start, Nat.min_eq_right short]

/-- The range of some index holds the value, and the lookup computes that index. -/
theorem exists_range (value size : Nat) (inside : value < totalMass) :
    ∃ index, start index size ≤ value ∧ value < start (index + 1) size ∧
      bucketOf value size = min index (size - 1) := by
  -- The tall ranges come first, one value higher than the others.
  by_cases low : value < totalMass % size * (totalMass / size + 1)
  · have short : value / (totalMass / size + 1) < totalMass % size :=
      Nat.div_lt_of_lt_mul (by rwa [Nat.mul_comm] at low)
    refine ⟨value / (totalMass / size + 1), ?_, ?_, by simp [bucketOf, low]⟩
    · rw [start_of_tall short.le]
      exact Nat.div_mul_le_self _ _
    · rw [start_of_tall short]
      exact Nat.lt_mul_of_div_lt (Nat.lt_succ_self _) (Nat.succ_pos _)
  · -- Without height all values are in the tall ranges.
    have height : 0 < totalMass / size := by
      rcases Nat.eq_zero_or_pos (totalMass / size) with flat | height
      · have division := Nat.div_add_mod totalMass size
        simp only [flat, Nat.mul_zero, Nat.zero_add, Nat.mul_one] at division low
        omega
      · exact height
    have split := start_of_tall (Nat.le_refl (totalMass % size))
    rw [start_of_short (Nat.le_refl _)] at split
    have above : totalMass % size ≤ totalMass % size +
        (value - totalMass % size * (totalMass / size + 1)) / (totalMass / size) :=
          Nat.le_add_right _ _
    refine ⟨totalMass % size + (value - totalMass % size * (totalMass / size + 1)) /
      (totalMass / size), ?_, ?_, by simp [bucketOf, low]⟩
    · rw [start_of_short above, Nat.add_mul]
      have rounded := Nat.div_mul_le_self
        (value - totalMass % size * (totalMass / size + 1)) (totalMass / size)
      omega
    · rw [start_of_short (Nat.le_succ_of_le above), Nat.succ_mul, Nat.add_mul]
      have rounded :=
        Nat.lt_div_mul_add (a := value - totalMass % size * (totalMass / size + 1)) height
      omega

theorem bucketOf_range (value size : Nat) (positive : 0 < size) (inside : value < totalMass) :
    bucketOf value size < size ∧ start (bucketOf value size) size ≤ value ∧
      value < start (bucketOf value size + 1) size := by
  obtain ⟨index, lower, upper, lookup⟩ := exists_range value size inside
  have below : index < size := by
    by_contra beyond
    have ordered := start_le_start (Nat.le_of_not_lt beyond) size
    rw [start_size size positive] at ordered
    omega
  have same : bucketOf value size = index := by omega
  rw [same]
  exact ⟨below, lower, upper⟩

theorem bucketOf_eq {index value size : Nat} (below : index < size)
    (lower : start index size ≤ value) (upper : value < start (index + 1) size) :
    bucketOf value size = index := by
  have positive : 0 < size := Nat.zero_lt_of_lt below
  have inside : value < totalMass := by
    have ordered : start (index + 1) size ≤ start size size := start_le_start below size
    rw [start_size size positive] at ordered
    omega
  obtain ⟨_, foundLower, foundUpper⟩ := bucketOf_range value size positive inside
  rcases Nat.lt_trichotomy (bucketOf value size) index with before | same | after
  · have ordered : start (bucketOf value size + 1) size ≤ start index size :=
      start_le_start before size
    omega
  · exact same
  · have ordered : start (index + 1) size ≤ start (bucketOf value size) size :=
      start_le_start after size
    omega

end LatentTopics.Alias
