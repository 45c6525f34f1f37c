import Mathlib
import LatentTopics.Alias.Arenas
import LatentTopics.Proofs.Alias.Proposals

/-! Filling buckets that hold something already. The work in place mirrors
the work on fresh buckets: it has the same lists and masses, and only the
buckets of entries that wait on a list may still hold what was there before.
Each of them is written when its entry leaves the lists, or at the end. -/
namespace LatentTopics.Alias

namespace Filling

variable {size : Nat}

theorem place_eq (size index mass : Nat) (low high : List Nat) (masses : Array Nat)
    (buckets : Array Bucket) :
    place size index mass ⟨low, high, masses, buckets⟩ =
      ⟨(sortIn size index mass low high).1, (sortIn size index mass low high).2, masses,
        if mass = capacity index size then buckets.setIfInBounds index (full size index)
        else buckets⟩ := by
  rw [place, sortIn]
  split
  · next less => rw [if_neg (Nat.ne_of_lt less)]
  · split
    · next more => rw [if_neg (Nat.ne_of_gt more)]
    · rw [if_pos (by omega)]

theorem bucket_place (index mass : Nat) (filling : Filling) (other : Nat)
    (inside : other < filling.buckets.size) :
    (filling.place size index mass).bucket other =
      if other = index ∧
      mass = capacity index size then full size index else filling.bucket other := by
  obtain ⟨low, high, masses, buckets⟩ := filling
  rw [place_eq]
  simp only [bucket]
  by_cases fits : mass = capacity index size
  · by_cases own : other = index
    · subst own
      rw [if_pos fits, if_pos ⟨rfl, fits⟩, Arrays.getD_set_self buckets inside]
    · rw [if_pos fits, if_neg fun both => own both.1, Arrays.getD_set_ne buckets (Ne.symm own)]
  · rw [if_neg fits, if_neg fun both => fits both.2]

theorem size_place (index mass : Nat) (filling : Filling) :
    (filling.place size index mass).buckets.size = filling.buckets.size := by
  obtain ⟨low, high, masses, buckets⟩ := filling
  rw [place_eq]
  dsimp only
  split
  · exact Array.size_setIfInBounds
  · rfl

theorem mem_pending_place (index mass : Nat) (filling : Filling) (entry : Nat) :
    entry ∈ (filling.place size index mass).pending ↔ entry ∈ filling.pending ∨ entry = index ∧
      mass ≠ capacity index size := by
  obtain ⟨low, high, masses, buckets⟩ := filling
  rw [place_eq]
  exact mem_sortIn size index mass low high entry

structure Placed (size : Nat) (list : List Nat) (index : Nat) (before after : Filling) : Prop where
  sorted : (after.low, after.high) = sortOut size list index before.low before.high
  masses : after.masses = before.masses
  sizes : after.buckets.size = before.buckets.size
  waiting : ∀ entry ∈ before.pending, entry ∈ after.pending
  buckets : ∀ other < before.buckets.size, other ∉ after.pending → after.bucket other =
    if index ≤ other ∧ other < index + list.length then full size other else before.bucket other

theorem placed (list : List Nat) (index : Nat) (before : Filling) :
    Placed size list index before (placeFrom size list index before) := by
  induction list generalizing index before with
  | nil =>
      exact ⟨rfl, rfl, rfl, fun _ member => member,
        fun other _ _ => by rw [if_neg (by rw [List.length_nil]; omega)]; rfl⟩
  | cons mass list ih =>
      obtain ⟨sorted, masses, sizes, waiting, buckets⟩ :=
        ih (index + 1) (before.place size index mass)
      rw [size_place] at sizes buckets
      refine ⟨?_, ?_, sizes, ?_, ?_⟩
      · rw [placeFrom, sorted]
        obtain ⟨low, high, masses, buckets⟩ := before
        rw [place_eq, sortOut_cons]
      · rw [placeFrom, masses]
        obtain ⟨low, high, masses, buckets⟩ := before
        rw [place_eq]
      · intro entry member
        exact waiting entry ((mem_pending_place index mass before entry).mpr (Or.inl member))
      · intro other inside idle
        rw [placeFrom, buckets other inside idle, List.length_cons]
        by_cases own : other = index
        · subst own
          -- An entry that does not wait in the end did not have to, so that its mass fits.
          have fits : mass = capacity other size := by
            by_contra differs
            exact idle (waiting other
              ((mem_pending_place other mass before other).mpr (Or.inr ⟨rfl, differs⟩)))
          rw [if_neg (by omega), if_pos (by omega), bucket_place other mass before other inside,
            if_pos ⟨rfl, fits⟩]
        · have foreign : ¬ (other = index ∧ mass = capacity index size) := fun both => own both.1
          rw [bucket_place index mass before other inside, if_neg foreign]
          have same : (index + 1 ≤ other ∧ other < index + 1 + list.length) ↔
              (index ≤ other ∧ other < index + (list.length + 1)) := by omega
          simp only [same]

/-- Work on buckets that held something, beside the same work on fresh ones. -/
structure Mirrors (fresh used : Filling) : Prop where
  low : used.low = fresh.low
  high : used.high = fresh.high
  masses : used.masses = fresh.masses
  size : used.buckets.size = fresh.buckets.size
  buckets : ∀ index < fresh.buckets.size, index ∉ fresh.pending →
    used.bucket index = fresh.bucket index

theorem start_mirrors (masses : List Nat) {buckets : Array Bucket}
    (size : buckets.size = masses.length) :
    Mirrors (start masses) (placeFrom masses.length masses 0 ⟨[], [], masses.toArray,
        buckets⟩) := by
  obtain ⟨sorted, kept, sizes, _, written⟩ :
    Placed masses.length masses 0 ⟨[], [], masses.toArray, buckets⟩ _ :=
    placed masses 0 _
  obtain ⟨low, high⟩ := Prod.mk.inj sorted
  have length : (start masses).buckets.size = masses.length := (start_balanced masses).bucketsSize
  refine ⟨low, high, kept, ?_, ?_⟩
  · rw [sizes, length, size]
  · intro index inside idle
    rw [length] at inside
    have pending : (placeFrom masses.length masses 0 ⟨[], [], masses.toArray, buckets⟩).pending =
        (start masses).pending := by
      rw [Filling.pending, Filling.pending, low, high]
      rfl
    rw [written index (size ▸ inside) (pending ▸ idle), if_pos (by omega),
      bucket_start masses inside]

theorem Mirrors.pour {masses : Nat → Nat} {fresh used : Filling} (mirrors : Mirrors fresh used)
    (balanced : Balanced size masses fresh) : Mirrors (fresh.step size) (used.pour size) := by
  obtain ⟨low, high, current, buckets⟩ := fresh
  obtain ⟨low', high', current', old⟩ := used
  obtain ⟨rfl, rfl, rfl, sizes, agree⟩ := mirrors
  rcases low' with _ | ⟨poor, low⟩
  · exact ⟨rfl, rfl, rfl, sizes, agree⟩
  rcases high' with _ | ⟨rich, high⟩
  · exact ⟨rfl, rfl, rfl, sizes, agree⟩
  dsimp only at sizes agree
  obtain ⟨different, poorBelow, richBelow, _, _⟩ := balanced.heads
  have room : buckets.size = size := balanced.bucketsSize
  refine ⟨?_, ?_, ?_, ?_, ?_⟩
  · rw [Filling.pour, place_eq]
    rfl
  · rw [Filling.pour, place_eq]
    rfl
  · rw [Filling.pour, place_eq]
    rfl
  · rw [Filling.pour, size_place, Array.size_setIfInBounds, sizes, step, Array.size_setIfInBounds]
  · intro index inside idle
    rw [step, Array.size_setIfInBounds] at inside
    have place : index <
        (old.setIfInBounds poor
          ⟨rich, Alias.start poor size + current'.getD poor 0⟩).size := by
      rw [Array.size_setIfInBounds, sizes]
      exact inside
    rw [bucket_step (room ▸ poorBelow), Filling.pour, bucket_place rich _ _ index place]
    rw [mem_pending_step] at idle
    by_cases isRich : index = rich
    · subst isRich
      -- A fresh bucket is full from the start.
      have fits : leftOver size poor index current' = capacity index size := by
        by_contra differs
        exact idle (Or.inr ⟨rfl, differs⟩)
      rw [if_pos ⟨rfl, fits⟩, if_neg different.symm]
      exact (balanced.untouched index ((mem_pending_heads index).mpr (Or.inr (Or.inl rfl)))).symm
    · rw [if_neg fun both => isRich both.1]
      by_cases isPoor : index = poor
      · subst isPoor
        rw [if_pos rfl, bucket, Arrays.getD_set_self old (sizes ▸ inside)]
      · rw [if_neg isPoor, bucket, Arrays.getD_set_ne old (Ne.symm isPoor)]
        apply agree index inside
        rw [mem_pending_heads]
        rintro (same | same | member)
        · exact isPoor same
        · exact isRich same
        · exact idle (Or.inl member)

theorem Mirrors.pourOn {masses : Nat → Nat} (steps : Nat) {fresh used : Filling}
    (mirrors : Mirrors fresh used) (balanced : Balanced size masses fresh) :
    Mirrors (fresh.run size steps) (used.pourOn size steps) := by
  induction steps generalizing fresh used with
  | zero => exact mirrors
  | succ steps ih => exact ih (mirrors.pour balanced) balanced.step

theorem foldl_full (size : Nat) (entries : List Nat) (buckets : Array Bucket) :
    (entries.foldl (fun buckets index => buckets.setIfInBounds index (full size index))
        buckets).size = buckets.size ∧
      ∀ index < buckets.size,
        (entries.foldl (fun buckets index => buckets.setIfInBounds index (full size index))
          buckets).getD index default =
          if index ∈ entries then full size index else buckets.getD index default := by
  induction entries generalizing buckets with
  | nil => simp
  | cons entry entries ih =>
      obtain ⟨sizes, reads⟩ := ih (buckets.setIfInBounds entry (full size entry))
      rw [Array.size_setIfInBounds] at sizes reads
      refine ⟨sizes, ?_⟩
      intro index inside
      rw [List.foldl_cons, reads index inside]
      by_cases later : index ∈ entries
      · rw [if_pos later, if_pos (List.mem_cons_of_mem entry later)]
      · rw [if_neg later]
        by_cases own : index = entry
        · subst own
          rw [if_pos List.mem_cons_self, Arrays.getD_set_self buckets inside]
        · rw [if_neg (by simp [own, later]), Arrays.getD_set_ne buckets (Ne.symm own)]

theorem Mirrors.close {masses : Nat → Nat} {fresh used : Filling} (mirrors : Mirrors fresh used)
    (balanced : Balanced size masses fresh) : used.close size = fresh.buckets := by
  obtain ⟨sizes, reads⟩ := foldl_full size (used.low.reverse ++ used.high.reverse) used.buckets
  apply Array.ext
  · exact sizes.trans mirrors.size
  · intro index inside inside'
    have own := reads index (mirrors.size ▸ inside')
    have waits : index ∈ used.low.reverse ++ used.high.reverse ↔ index ∈ fresh.pending := by
      rw [List.mem_append, List.mem_reverse, List.mem_reverse, mirrors.low, mirrors.high, pending,
        List.mem_append]
    have same : (used.close size).getD index default = fresh.bucket index := by
      rw [Filling.close, own]
      split
      · next waiting => exact (balanced.untouched index (waits.mp waiting)).symm
      · next idle => exact mirrors.buckets index inside' fun waiting => idle (waits.mpr waiting)
    rwa [bucket, Array.getD_eq_getD_getElem?, Array.getD_eq_getD_getElem?,
      Array.getElem?_eq_getElem inside, Array.getElem?_eq_getElem inside'] at same

end Filling

theorem Filling.close_eq (masses : List Nat) {buckets : Array Bucket}
    (size : buckets.size = masses.length) :
    let placed := placeFrom masses.length masses 0 ⟨[], [], masses.toArray, buckets⟩
    (placed.pourOn masses.length (placed.low.length + placed.high.length)).close masses.length =
      bucketsOfMasses masses := by
  intro placed
  have mirrors := start_mirrors masses size
  have steps : placed.low.length + placed.high.length = (start masses).low.length +
      (start masses).high.length := by
    rw [mirrors.low, mirrors.high]
  rw [steps]
  exact (mirrors.pourOn _ (start_balanced masses)).close ((start_balanced masses).run _)

/-- The table that is filled in place is the one that stands alone, whatever the buckets held and
whatever an earlier table left in the buffers. -/
theorem fillInPlace?_eq {buckets : Array Bucket} {scratch : Scratch}
    (size : buckets.size = scratch.weights.length) :
    ∃ after, fillInPlace? buckets scratch =
        some ((AliasTable.ofWeights scratch.weights).buckets, after) ∧
      after.weights = scratch.weights := by
  obtain ⟨weights, masses, low, high⟩ := scratch
  dsimp only at size
  cases weights with
  | nil =>
      rw [List.length_nil] at size
      refine ⟨⟨[], masses, low, high⟩, ?_, rfl⟩
      rw [fillInPlace?, if_pos size, Array.eq_empty_of_size_eq_zero size]
      rfl
  | cons weight weights =>
      have some : buckets.size ≠ 0 := by
        rw [size, List.length_cons]
        exact Nat.succ_ne_zero _
      have length : buckets.size = (quantize (weight :: weights)).length :=
        size.trans (length_quantize _).symm
      rw [fillInPlace?, if_neg some, if_neg (not_not.mpr size.symm), length,
        AliasTable.ofWeights_cons]
      dsimp only
      rw [Filling.close_eq (quantize (weight :: weights)) length]
      exact ⟨_, rfl, rfl⟩

end LatentTopics.Alias
