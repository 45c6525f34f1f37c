import Mathlib
import LatentTopics.Proofs.Alias.Partition

/-! Filling the buckets. At every moment an entry has two kinds of mass: what the finished buckets
give to it, and what it still has to give away itself if it waits on one of the two lists.
`Balanced` says that the two make up the mass that it began with; a step keeps it. -/
namespace LatentTopics.Alias

/-- The number of values that a bucket gives to an entry. -/
def Bucket.given (size index : Nat) (bucket : Bucket) (entry : Nat) : Nat :=
  (if entry = index then bucket.threshold - start index size else 0) +
    (if entry = bucket.partner then start (index + 1) size - bucket.threshold else 0)

structure Bucket.WithinRange (size index : Nat) (bucket : Bucket) : Prop where
  lower : start index size ≤ bucket.threshold
  upper : bucket.threshold ≤ start (index + 1) size
  partner : bucket.partner < size

theorem full_given (size index entry : Nat) :
    (full size index).given size index entry =
      if entry = index then capacity index size else 0 := by
  by_cases own : entry = index <;> simp [Bucket.given, full, start_succ, own]

theorem full_withinRange {size index : Nat} (below : index < size) :
    (full size index).WithinRange size index := by
  refine ⟨?_, ?_, below⟩ <;> simp [full, start_succ]

theorem shared_given {size poor rich mass : Nat} (different : poor ≠ rich)
    (deficit : mass ≤ capacity poor size) (entry : Nat) :
    (Bucket.mk rich (start poor size + mass)).given size poor entry =
      if entry = poor then mass else if entry = rich then capacity poor size - mass else 0 := by
  by_cases own : entry = poor
  · subst own
    simp [Bucket.given, different]
  · by_cases other : entry = rich
    · subst other
      simp only [Bucket.given, own, start_succ, if_true, if_false]
      omega
    · simp [Bucket.given, own, other]

theorem shared_withinRange {size poor rich mass : Nat} (below : rich < size)
    (deficit : mass ≤ capacity poor size) :
    (Bucket.mk rich (start poor size + mass)).WithinRange size poor := by
  refine ⟨Nat.le_add_right _ _, ?_, below⟩
  rw [start_succ]
  exact Nat.add_le_add_left deficit _

/-- Any surplus covers any deficit: capacities differ by at most one. -/
theorem deficit_le_surplus {size rich surplus : Nat} (excess : capacity rich size < surplus)
    (poor mass : Nat) : capacity poor size - mass ≤ surplus := by
  have most := capacity_le poor size
  have least := height_le_capacity rich size
  omega

namespace Filling

def pending (filling : Filling) : List Nat :=
  filling.low ++ filling.high

def mass (filling : Filling) (index : Nat) : Nat :=
  filling.masses.getD index 0

def bucket (filling : Filling) (index : Nat) : Bucket :=
  filling.buckets.getD index default

/-- What an entry has from a bucket that is finished, or still has itself if it is pending. -/
def share (size : Nat) (filling : Filling) (entry index : Nat) : Nat :=
  if index ∈ filling.pending then if entry = index then filling.mass index else 0
  else (filling.bucket index).given size index entry

/-- What fills a bucket in the end, and the mass of a pending entry until then. -/
def level (size : Nat) (filling : Filling) (index : Nat) : Nat :=
  if index ∈ filling.pending then filling.mass index else capacity index size

structure Balanced (size : Nat) (masses : Nat → Nat) (filling : Filling) : Prop where
  massesSize : filling.masses.size = size
  bucketsSize : filling.buckets.size = size
  unique : filling.pending.Nodup
  below : ∀ index ∈ filling.pending, index < size
  poor : ∀ index ∈ filling.low, filling.mass index < capacity index size
  rich : ∀ index ∈ filling.high, capacity index size < filling.mass index
  untouched : ∀ index ∈ filling.pending, filling.bucket index = full size index
  ranges : ∀ index < size, (filling.bucket index).WithinRange size index
  levels : ∑ index ∈ Finset.range size, filling.level size index =
    ∑ index ∈ Finset.range size, masses index
  shares : ∀ entry < size, ∑ index ∈ Finset.range size,
    filling.share size entry index = masses entry

theorem sum_eq_of_pair {indices : Finset Nat} {before after : Nat → Nat} {first second : Nat}
    (hasFirst : first ∈ indices) (hasSecond : second ∈ indices) (different : first ≠ second)
    (others : ∀ index, index ≠ first → index ≠ second → before index = after index)
    (pair : before first + before second = after first + after second) :
    ∑ index ∈ indices, before index = ∑ index ∈ indices, after index := by
  have inside : second ∈ indices.erase first := Finset.mem_erase.mpr ⟨different.symm, hasSecond⟩
  rw [← Finset.add_sum_erase _ before hasFirst, ← Finset.add_sum_erase _ after hasFirst,
    ← Finset.add_sum_erase _ before inside, ← Finset.add_sum_erase _ after inside]
  have rest : ∑ index ∈ (indices.erase first).erase second, before index =
      ∑ index ∈ (indices.erase first).erase second, after index := by
    refine Finset.sum_congr rfl fun index member => ?_
    obtain ⟨notSecond, member⟩ := Finset.mem_erase.mp member
    exact others index (Finset.ne_of_mem_erase member) notSecond
  omega

section SortIn

variable (size index mass : Nat) (low high : List Nat)

theorem mem_sortIn_low (entry : Nat) :
    entry ∈ (sortIn size index mass low high).1 ↔
      entry ∈ low ∨ entry = index ∧ mass < capacity index size := by
  unfold sortIn
  split
  · simp [or_comm, *]
  · split <;> simp [*]

theorem mem_sortIn_high (entry : Nat) :
    entry ∈ (sortIn size index mass low high).2 ↔
      entry ∈ high ∨ entry = index ∧ capacity index size < mass := by
  unfold sortIn
  split
  · have notRich : ¬ capacity index size < mass := by omega
    simp [notRich]
  · split <;> simp [or_comm, *]

theorem mem_sortIn (entry : Nat) :
    entry ∈ (sortIn size index mass low high).1 ++ (sortIn size index mass low high).2 ↔
      entry ∈ low ++ high ∨ entry = index ∧ mass ≠ capacity index size := by
  rw [List.mem_append, List.mem_append, mem_sortIn_low, mem_sortIn_high]
  have compare : mass ≠ capacity index size ↔
      mass < capacity index size ∨ capacity index size < mass := by omega
  rw [compare]
  tauto

variable {low high} in
theorem nodup_sortIn (unique : (low ++ high).Nodup) {index : Nat} (fresh : index ∉ low ++ high) :
    ((sortIn size index mass low high).1 ++ (sortIn size index mass low high).2).Nodup := by
  unfold sortIn
  split
  · exact List.nodup_cons.mpr ⟨fresh, unique⟩
  · split
    · exact (List.nodup_middle).mpr (List.nodup_cons.mpr ⟨fresh, unique⟩)
    · exact unique

theorem length_sortIn :
    (sortIn size index mass low high).1.length + (sortIn size index mass low high).2.length ≤
      low.length + high.length + 1 := by
  unfold sortIn
  split
  · simp only [List.length_cons]
    omega
  · split
    · simp only [List.length_cons]
      omega
    · exact Nat.le_succ _

end SortIn

section Step

variable {size poor rich : Nat} {low high : List Nat} {masses : Nat → Nat}
  {current : Array Nat} {buckets : Array Bucket}

def leftOver (size poor rich : Nat) (current : Array Nat) : Nat :=
  current.getD rich 0 - (capacity poor size - current.getD poor 0)

theorem Balanced.heads
    (balanced : Balanced size masses ⟨poor :: low, rich :: high, current, buckets⟩) :
    poor ≠ rich ∧ poor < size ∧ rich < size ∧ current.getD poor 0 < capacity poor size ∧
      capacity rich size < current.getD rich 0 := by
  have unique := balanced.unique
  simp only [pending, List.cons_append, List.nodup_cons, List.mem_append, List.mem_cons] at unique
  exact ⟨fun same => unique.1 (Or.inr (Or.inl same)), balanced.below poor (by simp [pending]),
    balanced.below rich (by simp [pending]), balanced.poor poor (by simp),
    balanced.rich rich (by simp)⟩

theorem Balanced.tails
    (balanced : Balanced size masses ⟨poor :: low, rich :: high, current, buckets⟩) :
    poor ∉ low ++ high ∧ rich ∉ low ++ high ∧ (low ++ high).Nodup := by
  have unique : (poor :: (low ++ rich :: high)).Nodup := balanced.unique
  obtain ⟨poorFresh, unique⟩ := List.nodup_cons.mp unique
  obtain ⟨richFresh, unique⟩ := List.nodup_cons.mp (List.nodup_middle.mp unique)
  refine ⟨fun member => poorFresh ?_, richFresh, unique⟩
  rcases List.mem_append.mp member with inLow | inHigh
  · exact List.mem_append.mpr (Or.inl inLow)
  · exact List.mem_append.mpr (Or.inr (List.mem_cons_of_mem rich inHigh))

theorem mem_pending_step (index : Nat) :
    index ∈ (step size ⟨poor :: low, rich :: high, current, buckets⟩).pending ↔
      index ∈ low ++ high ∨ index = rich ∧
      leftOver size poor rich current ≠ capacity rich size := by
  simp only [step, pending, mem_sortIn, leftOver]

theorem mem_pending_heads (index : Nat) :
    index ∈ pending ⟨poor :: low, rich :: high, current, buckets⟩ ↔
      index = poor ∨ index = rich ∨ index ∈ low ++ high := by
  simp only [pending, List.mem_append, List.mem_cons]
  tauto

theorem Balanced.waiting
    (balanced : Balanced size masses ⟨poor :: low, rich :: high, current, buckets⟩) {index : Nat}
    (member : index ∈ (step size ⟨poor :: low, rich :: high, current, buckets⟩).pending) :
    index ≠ poor ∧ index ∈ pending ⟨poor :: low, rich :: high, current, buckets⟩ := by
  rw [mem_pending_heads]
  rcases (mem_pending_step index).mp member with old | ⟨same, _⟩
  · exact ⟨fun same => balanced.tails.1 (same ▸ old), Or.inr (Or.inr old)⟩
  · subst same
    exact ⟨balanced.heads.1.symm, Or.inr (Or.inl rfl)⟩

theorem mass_step (room : rich < current.size) (index : Nat) :
    (step size ⟨poor :: low, rich :: high, current, buckets⟩).mass index =
      if index = rich then leftOver size poor rich current else current.getD index 0 := by
  by_cases same : index = rich
  · subst same
    simp [step, mass, leftOver, room]
  · simp [step, mass, same, Ne.symm same]

theorem bucket_step (room : poor < buckets.size) (index : Nat) :
    (step size ⟨poor :: low, rich :: high, current, buckets⟩).bucket index =
      if index = poor then ⟨rich, Alias.start poor size + current.getD poor 0⟩
      else buckets.getD index default := by
  by_cases same : index = poor
  · subst same
    simp [step, bucket, room]
  · simp [step, bucket, same, Ne.symm same]

theorem Balanced.step_levels
    (balanced : Balanced size masses ⟨poor :: low, rich :: high, current, buckets⟩) :
    ∑ index ∈ Finset.range size,
        (step size ⟨poor :: low, rich :: high, current, buckets⟩).level size index =
      ∑ index ∈ Finset.range size, masses index := by
  obtain ⟨different, poorBelow, richBelow, deficit, surplus⟩ := balanced.heads
  obtain ⟨poorFresh, richFresh, _⟩ := balanced.tails
  have room : rich < current.size := balanced.massesSize ▸ richBelow
  have covered := deficit_le_surplus surplus poor (current.getD poor 0)
  rw [← balanced.levels]
  -- The poor level rises by its deficit, and the rich one pays for it.
  refine sum_eq_of_pair (Finset.mem_range.mpr poorBelow) (Finset.mem_range.mpr richBelow)
    different ?_ ?_
  · intro index notPoor notRich
    simp only [level, mem_pending_step, mem_pending_heads, mass_step room, notPoor,
      notRich, false_and, or_false, false_or, if_false]
    rfl
  · have poorAfter : (step size ⟨poor :: low, rich :: high, current, buckets⟩).level size poor =
        capacity poor size := by
      simp only [level, mem_pending_step, poorFresh, different, false_and, or_self, if_false]
    have richAfter : (step size ⟨poor :: low, rich :: high, current, buckets⟩).level size rich =
        leftOver size poor rich current := by
      simp only [level, mem_pending_step, richFresh, mass_step room, true_and, false_or, if_true]
      split
      · rfl
      · omega
    have poorBefore : level size ⟨poor :: low, rich :: high, current, buckets⟩ poor =
        current.getD poor 0 := by
      simp [level, pending, mass]
    have richBefore : level size ⟨poor :: low, rich :: high, current, buckets⟩ rich =
        current.getD rich 0 := by
      simp [level, pending, mass]
    rw [poorAfter, richAfter, poorBefore, richBefore, leftOver]
    omega

theorem Balanced.share_step_poor
    (balanced : Balanced size masses ⟨poor :: low, rich :: high, current, buckets⟩) (entry : Nat) :
    (step size ⟨poor :: low, rich :: high, current, buckets⟩).share size entry poor =
      if entry = poor then current.getD poor 0
      else if entry = rich then capacity poor size - current.getD poor 0 else 0 := by
  obtain ⟨different, poorBelow, _, deficit, _⟩ := balanced.heads
  have bucketRoom : poor < buckets.size := balanced.bucketsSize ▸ poorBelow
  simp only [share, mem_pending_step, balanced.tails.1, different, false_and, or_self, if_false,
    bucket_step bucketRoom, if_true]
  exact shared_given different deficit.le entry

theorem Balanced.share_step_rich
    (balanced : Balanced size masses ⟨poor :: low, rich :: high, current, buckets⟩) (entry : Nat) :
    (step size ⟨poor :: low, rich :: high, current, buckets⟩).share size entry rich =
      if entry = rich then leftOver size poor rich current else 0 := by
  obtain ⟨different, poorBelow, richBelow, _, _⟩ := balanced.heads
  have room : rich < current.size := balanced.massesSize ▸ richBelow
  have bucketRoom : poor < buckets.size := balanced.bucketsSize ▸ poorBelow
  simp only [share, mem_pending_step, balanced.tails.2.1, mass_step room, bucket_step bucketRoom,
    different.symm, true_and, false_or, if_true, if_false]
  split
  · rfl
  · have untouched := balanced.untouched rich (by simp [pending])
    simp only [bucket] at untouched
    rw [untouched, full_given]
    split <;> omega

theorem Balanced.step_shares
    (balanced : Balanced size masses ⟨poor :: low, rich :: high, current, buckets⟩) (entry : Nat)
    (below : entry < size) :
    ∑ index ∈ Finset.range size,
        (step size ⟨poor :: low, rich :: high, current, buckets⟩).share size entry index =
      masses entry := by
  obtain ⟨different, poorBelow, richBelow, deficit, surplus⟩ := balanced.heads
  have room : rich < current.size := balanced.massesSize ▸ richBelow
  have bucketRoom : poor < buckets.size := balanced.bucketsSize ▸ poorBelow
  have covered := deficit_le_surplus surplus poor (current.getD poor 0)
  rw [← balanced.shares entry below]
  -- What the rich entry gives up, it has from the poor bucket instead.
  refine sum_eq_of_pair (Finset.mem_range.mpr poorBelow) (Finset.mem_range.mpr richBelow)
    different ?_ ?_
  · intro index notPoor notRich
    simp only [share, mem_pending_step, mem_pending_heads, mass_step room,
      bucket_step bucketRoom, notPoor, notRich, false_and, or_false, false_or, if_false]
    rfl
  · have poorBefore : share size ⟨poor :: low, rich :: high, current, buckets⟩ entry poor =
        if entry = poor then current.getD poor 0 else 0 := by
      simp [share, pending, mass]
    have richBefore : share size ⟨poor :: low, rich :: high, current, buckets⟩ entry rich =
        if entry = rich then current.getD rich 0 else 0 := by
      simp [share, pending, mass]
    rw [balanced.share_step_poor, balanced.share_step_rich, poorBefore, richBefore, leftOver]
    by_cases own : entry = poor
    · subst own
      simp [different]
    · by_cases other : entry = rich
      · subst other
        simp only [own, if_false, if_true]
        omega
      · simp [own, other]

theorem Balanced.step_poor
    (balanced : Balanced size masses ⟨poor :: low, rich :: high, current, buckets⟩) :
    ∀ index ∈ (step size ⟨poor :: low, rich :: high, current, buckets⟩).low,
      (step size ⟨poor :: low, rich :: high, current, buckets⟩).mass index <
        capacity index size := by
  intro index member
  rw [mass_step (balanced.massesSize ▸ balanced.heads.2.2.1)]
  rcases (mem_sortIn_low _ _ _ _ _ index).mp member with old | ⟨same, less⟩
  · have notRich : index ≠ rich :=
      fun same => balanced.tails.2.1 (same ▸ List.mem_append_left high old)
    rw [if_neg notRich]
    exact balanced.poor index (List.mem_cons_of_mem poor old)
  · rw [if_pos same, same]
    exact less

theorem Balanced.step_rich
    (balanced : Balanced size masses ⟨poor :: low, rich :: high, current, buckets⟩) :
    ∀ index ∈ (step size ⟨poor :: low, rich :: high, current, buckets⟩).high,
      capacity index size < (step size ⟨poor :: low, rich :: high, current,
        buckets⟩).mass index := by
  intro index member
  rw [mass_step (balanced.massesSize ▸ balanced.heads.2.2.1)]
  rcases (mem_sortIn_high _ _ _ _ _ index).mp member with old | ⟨same, more⟩
  · have notRich : index ≠ rich :=
      fun same => balanced.tails.2.1 (same ▸ List.mem_append_right low old)
    rw [if_neg notRich]
    exact balanced.rich index (List.mem_cons_of_mem rich old)
  · rw [if_pos same, same]
    exact more

end Step

/-- A step finishes the poor bucket and leaves all other shares as they are. -/
theorem Balanced.step {size : Nat} {masses : Nat → Nat} {filling : Filling}
    (balanced : Balanced size masses filling) : Balanced size masses (filling.step size) := by
  rcases filling with ⟨_ | ⟨poor, low⟩, high, current, buckets⟩
  · exact balanced
  rcases high with _ | ⟨rich, high⟩
  · exact balanced
  obtain ⟨_, poorBelow, richBelow, deficit, _⟩ := balanced.heads
  obtain ⟨_, richFresh, unique⟩ := balanced.tails
  have bucketRoom : poor < buckets.size := balanced.bucketsSize ▸ poorBelow
  refine {
    massesSize := ?_
    bucketsSize := ?_
    unique := ?_
    below := fun index member => balanced.below index (balanced.waiting member).2
    poor := balanced.step_poor
    rich := balanced.step_rich
    untouched := ?_
    ranges := ?_
    levels := balanced.step_levels
    shares := balanced.step_shares }
  · simpa [Filling.step] using balanced.massesSize
  · simpa [Filling.step] using balanced.bucketsSize
  · exact nodup_sortIn size _ unique richFresh
  · intro index member
    obtain ⟨notPoor, old⟩ := balanced.waiting member
    rw [bucket_step bucketRoom, if_neg notPoor]
    exact balanced.untouched index old
  · intro index below
    rw [bucket_step bucketRoom]
    split
    · rename_i same
      subst same
      exact shared_withinRange richBelow deficit.le
    · exact balanced.ranges index below

theorem Balanced.run {size : Nat} {masses : Nat → Nat} {filling : Filling}
    (balanced : Balanced size masses filling) (steps : Nat) :
    Balanced size masses (filling.run size steps) := by
  induction steps generalizing filling with
  | zero => exact balanced
  | succ steps ih => exact ih balanced.step

section Start

variable {size : Nat}

theorem sortOut_cons (mass : Nat) (masses : List Nat) (index : Nat) (low high : List Nat) :
    sortOut size (mass :: masses) index low high =
      sortOut size masses (index + 1) (sortIn size index mass low high).1
        (sortIn size index mass low high).2 := rfl

theorem mem_sortOut {side : List Nat × List Nat → List Nat} {waits : Nat → Nat → Prop}
    (puts : ∀ index mass low high entry, entry ∈ side (sortIn size index mass low high) ↔
      entry ∈ side (low, high) ∨ entry = index ∧ waits mass (capacity index size))
    (masses : List Nat) (index : Nat) (low high : List Nat) (entry : Nat) :
    entry ∈ side (sortOut size masses index low high) ↔ entry ∈ side (low, high) ∨
      ∃ offset mass, masses[offset]? = some mass ∧ entry = index + offset ∧
        waits mass (capacity entry size) := by
  induction masses generalizing index low high with
  | nil => simp [sortOut]
  | cons mass masses ih =>
      rw [sortOut_cons, ih, puts]
      constructor
      · rintro ((old | ⟨same, less⟩) | ⟨offset, other, found, same, less⟩)
        · exact Or.inl old
        · exact Or.inr ⟨0, mass, rfl, same, same ▸ less⟩
        · exact Or.inr ⟨offset + 1, other, found, by omega, less⟩
      · rintro (old | ⟨offset, other, found, same, less⟩)
        · exact Or.inl (Or.inl old)
        · rcases offset with _ | offset
          · obtain rfl : mass = other := by simpa using found
            rw [Nat.add_zero] at same
            exact Or.inl (Or.inr ⟨same, same ▸ less⟩)
          · exact Or.inr ⟨offset, other, found, by omega, less⟩

theorem nodup_sortOut (masses : List Nat) (index : Nat) (low high : List Nat)
    (unique : (low ++ high).Nodup) (before : ∀ entry ∈ low ++ high, entry < index) :
    ((sortOut size masses index low high).1 ++ (sortOut size masses index low high).2).Nodup := by
  induction masses generalizing index low high with
  | nil => exact unique
  | cons mass masses ih =>
      rw [sortOut_cons]
      apply ih
      · exact nodup_sortIn size mass unique fun member => Nat.lt_irrefl index (before index member)
      · intro entry member
        rcases (mem_sortIn _ _ _ _ _ entry).mp member with old | ⟨same, _⟩
        · exact Nat.lt_succ_of_lt (before entry old)
        · omega

theorem mem_sortOut_start {side : List Nat × List Nat → List Nat} {waits : Nat → Nat → Prop}
    (puts : ∀ index mass low high entry, entry ∈ side (sortIn size index mass low high) ↔
      entry ∈ side (low, high) ∨ entry = index ∧ waits mass (capacity index size))
    (vacant : side ([], []) = []) (masses : List Nat) (index : Nat) :
    index ∈ side (sortOut size masses 0 [] []) ↔
      index < masses.length ∧ waits (masses.getD index 0) (capacity index size) := by
  simp only [mem_sortOut puts, vacant, List.not_mem_nil, false_or, Nat.zero_add]
  constructor
  · rintro ⟨offset, mass, found, rfl, less⟩
    obtain ⟨below, same⟩ := List.getElem?_eq_some_iff.mp found
    simpa [below, same] using less
  · rintro ⟨below, less⟩
    exact ⟨index, masses[index], List.getElem?_eq_getElem below, rfl, by simpa [below] using less⟩

theorem mem_start_low (masses : List Nat) (index : Nat) :
    index ∈ (start masses).low ↔
      index < masses.length ∧ masses.getD index 0 < capacity index masses.length :=
  @mem_sortOut_start masses.length Prod.fst (fun mass room => mass < room)
    (mem_sortIn_low masses.length) rfl masses index

theorem mem_start_high (masses : List Nat) (index : Nat) :
    index ∈ (start masses).high ↔
      index < masses.length ∧ capacity index masses.length < masses.getD index 0 :=
  @mem_sortOut_start masses.length Prod.snd (fun mass room => room < mass)
    (mem_sortIn_high masses.length) rfl masses index

theorem mem_start_pending (masses : List Nat) (index : Nat) :
    index ∈ (start masses).pending ↔
      index < masses.length ∧ masses.getD index 0 ≠ capacity index masses.length := by
  rw [pending, List.mem_append, mem_start_low, mem_start_high]
  constructor
  · rintro (⟨below, less⟩ | ⟨below, more⟩)
    · exact ⟨below, by omega⟩
    · exact ⟨below, by omega⟩
  · rintro ⟨below, different⟩
    rcases Nat.lt_or_gt_of_ne different with less | more
    · exact Or.inl ⟨below, less⟩
    · exact Or.inr ⟨below, more⟩

theorem mass_start (masses : List Nat) (index : Nat) :
    (start masses).mass index = masses.getD index 0 := by
  simp [start, mass]

theorem bucket_start (masses : List Nat) {index : Nat} (below : index < masses.length) :
    (start masses).bucket index = full masses.length index := by
  simp [start, bucket, below]

theorem start_balanced (masses : List Nat) :
    Balanced masses.length (fun index => masses.getD index 0) (start masses) where
  massesSize := by simp [start]
  bucketsSize := by simp [start]
  unique := nodup_sortOut masses 0 [] [] List.nodup_nil (by simp)
  below := fun index member => ((mem_start_pending masses index).mp member).1
  poor := fun index member => by
    rw [mass_start]
    exact ((mem_start_low masses index).mp member).2
  rich := fun index member => by
    rw [mass_start]
    exact ((mem_start_high masses index).mp member).2
  untouched := fun index member =>
    bucket_start masses ((mem_start_pending masses index).mp member).1
  ranges := fun index below => by
    rw [bucket_start masses below]
    exact full_withinRange below
  levels := by
    refine Finset.sum_congr rfl fun index member => ?_
    have below := Finset.mem_range.mp member
    simp only [level, mass_start, mem_start_pending, below, true_and]
    split
    · rfl
    · omega
  shares := by
    intro entry below
    rw [Finset.sum_eq_single_of_mem entry (Finset.mem_range.mpr below)]
    · simp only [share, mass_start, mem_start_pending, below, true_and, if_true,
        bucket_start masses below, full_given]
      split
      · rfl
      · omega
    · intro index member different
      have indexBelow := Finset.mem_range.mp member
      simp [share, bucket_start masses indexBelow, full_given, different.symm]

end Start

theorem length_step (size poor rich : Nat) (low high : List Nat) (masses : Array Nat)
    (buckets : Array Bucket) :
    (step size ⟨poor :: low, rich :: high, masses, buckets⟩).low.length +
        (step size ⟨poor :: low, rich :: high, masses, buckets⟩).high.length <
      (poor :: low).length + (rich :: high).length := by
  have most := length_sortIn size rich (leftOver size poor rich masses) low high
  simp only [step, List.length_cons]
  simp only [leftOver] at most
  omega

theorem run_of_empty {size : Nat} {filling : Filling} (done : filling.low = [] ∨ filling.high = [])
    (steps : Nat) : filling.run size steps = filling := by
  induction steps with
  | zero => rfl
  | succ steps ih =>
      have idle : filling.step size = filling := by
        rcases filling with ⟨_ | ⟨poor, low⟩, _ | ⟨rich, high⟩, masses, buckets⟩
        · rfl
        · rfl
        · rfl
        · simp at done
      rw [run, idle, ih]

theorem run_empties {size : Nat} (steps : Nat) (filling : Filling)
    (enough : filling.low.length + filling.high.length ≤ steps) :
    (filling.run size steps).low = [] ∨ (filling.run size steps).high = [] := by
  -- Every step shortens the lists, so that not all of these steps find two heads.
  induction steps generalizing filling with
  | zero =>
      rw [run]
      exact Or.inl (List.eq_nil_of_length_eq_zero (by omega))
  | succ steps ih =>
      rcases filling with ⟨_ | ⟨poor, low⟩, high, masses, buckets⟩
      · rw [run_of_empty (Or.inl rfl)]
        exact Or.inl rfl
      rcases high with _ | ⟨rich, high⟩
      · rw [run_of_empty (Or.inr rfl)]
        exact Or.inr rfl
      have shorter := length_step size poor rich low high masses buckets
      apply ih
      simp only [List.length_cons] at shorter enough
      omega

theorem sum_capacity (size count : Nat) :
    ∑ index ∈ Finset.range count, capacity index size = Alias.start count size := by
  induction count with
  | zero => rw [start_zero, Finset.sum_range_zero]
  | succ count ih => rw [Finset.sum_range_succ, ih, start_succ]

/-- Masses and capacities have the same sum, so that the lists become empty together. -/
theorem Balanced.drained {size : Nat} {masses : Nat → Nat} {filling : Filling}
    (balanced : Balanced size masses filling) (positive : 0 < size)
    (total : ∑ index ∈ Finset.range size, masses index = totalMass)
    (done : filling.low = [] ∨ filling.high = []) : filling.low = [] ∧ filling.high = [] := by
  have even : ∑ index ∈ Finset.range size, filling.level size index =
      ∑ index ∈ Finset.range size, capacity index size := by
    rw [balanced.levels, total, sum_capacity, start_size size positive]
  -- An entry that waits alone on one side would make one of the two sums larger.
  rcases done with noLow | noHigh
  · refine ⟨noLow, List.eq_nil_iff_forall_not_mem.mpr fun entry member => ?_⟩
    have waiting : ∀ index, index ∈ filling.pending ↔ index ∈ filling.high := by
      simp [pending, noLow]
    refine absurd even (Finset.sum_lt_sum ?_ ⟨entry, ?_, ?_⟩).ne'
    · intro index _
      simp only [level, waiting]
      split
      · exact (balanced.rich index ‹_›).le
      · exact le_rfl
    · exact Finset.mem_range.mpr (balanced.below entry ((waiting entry).mpr member))
    · simp only [level, waiting, member, if_true]
      exact balanced.rich entry member
  · refine ⟨List.eq_nil_iff_forall_not_mem.mpr fun entry member => ?_, noHigh⟩
    have waiting : ∀ index, index ∈ filling.pending ↔ index ∈ filling.low := by
      simp [pending, noHigh]
    refine absurd even (Finset.sum_lt_sum ?_ ⟨entry, ?_, ?_⟩).ne
    · intro index _
      simp only [level, waiting]
      split
      · exact (balanced.poor index ‹_›).le
      · exact le_rfl
    · exact Finset.mem_range.mpr (balanced.below entry ((waiting entry).mpr member))
    · simp only [level, waiting, member, if_true]
      exact balanced.poor entry member

end Filling

end LatentTopics.Alias
