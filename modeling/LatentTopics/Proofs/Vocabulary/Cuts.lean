import Mathlib
import LatentTopics.Proofs.Vocabulary.Seats

/-! The best cut of a vocabulary. Its runs keep to the limits as far as words allow it, none of them
could take in the next word, and no other cut that keeps to the limits has fewer of them: whatever
the first part of another cut is, it does not reach beyond the first run, so that the rest of it
still has all the words of the other runs to cut. -/
namespace LatentTopics

def Cells.total (costs : List Cells) : Cells :=
  ⟨(costs.map Cells.rows).sum, (costs.map Cells.aliases).sum⟩

theorem Cells.total_append (costs : List Cells) (cost : Cells) :
    total (costs ++ [cost]) = total costs + cost := by
  simp only [total, List.map_append, List.map_singleton, List.sum_append, List.sum_singleton]
  rfl

namespace Slicing

/-- The totals of these costs are within their limits; a limit of zero is no limit. -/
structure KeepsTo (limits : Cells) (costs : List Cells) : Prop where
  rows : limits.rows = 0 ∨ (costs.map Cells.rows).sum ≤ limits.rows
  aliases : limits.aliases = 0 ∨ (costs.map Cells.aliases).sum ≤ limits.aliases

/-- A single cost makes a run however large it is. -/
def Permitted (limits : Cells) (costs : List Cells) : Prop :=
  costs.length = 1 ∨ KeepsTo limits costs

theorem fits_total (limits : Cells) (costs : List Cells) :
    limits.fits (.total costs) = true ↔ KeepsTo limits costs := by
  simp only [Cells.fits, Cells.within, Cells.total, Bool.and_eq_true, Bool.or_eq_true,
    decide_eq_true_eq]
  exact ⟨fun ⟨rows, aliases⟩ => ⟨rows.imp_right of_decide_eq_true,
    aliases.imp_right of_decide_eq_true⟩, fun ⟨rows, aliases⟩ =>
    ⟨rows.imp_right decide_eq_true, aliases.imp_right decide_eq_true⟩⟩

theorem KeepsTo.sublist {limits : Cells} {costs part : List Cells} (keeps : KeepsTo limits costs)
    (within : part.Sublist costs) : KeepsTo limits part :=
  ⟨keeps.rows.imp_right ((within.map Cells.rows).sum_le_sum fun _ _ => Nat.zero_le _).trans,
    keeps.aliases.imp_right ((within.map Cells.aliases).sum_le_sum fun _ _ => Nat.zero_le _).trans⟩

theorem extract_sublist {α : Type} (list : List α) {start first last stop : Nat}
    (early : start ≤ first) (late : last ≤ stop) :
    (list.extract first last).Sublist (list.extract start stop) := by
  have inner : list.extract first last = ((list.drop start).take (last - start)).drop
      (first - start) := by
    rw [List.extract_eq_take_drop, List.drop_take, List.drop_drop, Nat.add_sub_cancel' early,
      Nat.sub_sub_sub_cancel_right early]
  rw [inner, List.extract_eq_take_drop]
  exact (List.drop_sublist _ _).trans
    (List.take_sublist_take_left (Nat.sub_le_sub_right late start))

theorem extract_succ {α : Type} {list rest : List α} {value : α} {start index : Nat}
    (order : start ≤ index) (left : list.drop index = value :: rest) :
    list.extract start (index + 1) = list.extract start index ++ [value] := by
  have here : (list.drop start)[index - start]? = some value := by
    rw [List.getElem?_drop, Nat.add_sub_cancel' order, ← List.head?_drop, left, List.head?_cons]
  rw [List.extract_eq_take_drop, List.extract_eq_take_drop, Nat.sub_add_comm order,
    List.take_add_one, here, Option.toList_some]

/-- A permitted run of costs, which is not within the limits any more with the cost behind it. -/
structure Tight (limits : Cells) (costs : List Cells) (run : Nat × Nat) : Prop where
  permitted : Permitted limits (costs.extract run.1 run.2)
  full : run.2 < costs.length → ¬ KeepsTo limits (costs.extract run.1 (run.2 + 1))

theorem runsFrom_tight (limits : Cells) {whole costs : List Cells} {start index : Nat}
    (left : whole.drop index = costs) (opened : start ≤ index)
    (permitted : start < index → Permitted limits (whole.extract start index)) :
    ∀ run ∈ runsFrom limits costs start index (.total (whole.extract start index)),
        Tight limits whole run := by
  induction costs generalizing start index with
  | nil =>
      intro run member
      rw [runsFrom] at member
      split at member
      · next nonempty =>
        obtain rfl := List.mem_singleton.mp member
        have ended : whole.length ≤ index := List.drop_eq_nil_iff.mp left
        exact ⟨permitted nonempty, fun inside => absurd inside (not_lt.mpr ended)⟩
      · cases member
  | cons cost costs ih =>
      have rest : whole.drop (index + 1) = costs := by
        rw [← List.drop_drop, left, List.drop_one, List.tail_cons]
      have longer := extract_succ opened left
      have alone : whole.extract index (index + 1) = [cost] := by
        rw [extract_succ (Nat.le_refl index) left]
        simp
      have grown : Cells.total (whole.extract start (index + 1)) =
          .total (whole.extract start index) + cost := by
        rw [longer, Cells.total_append]
      have single : Cells.total (whole.extract index (index + 1)) = cost := by
        rw [alone]
        rfl
      intro run member
      rw [runsFrom, ← grown] at member
      split at member
      -- The run is closed since it would break a limit, and the cost opens the next one.
      · next close =>
        simp only [Bool.and_eq_true, Bool.not_eq_true', decide_eq_true_eq] at close
        rcases List.mem_cons.mp member with rfl | later
        · refine ⟨permitted close.2, fun _ keeps => ?_⟩
          rw [(fits_total limits _).mpr keeps] at close
          exact absurd close.1 (by decide)
        · rw [← single] at later
          exact ih rest (Nat.le_succ index)
            (fun _ => Or.inl (by rw [alone, List.length_singleton])) run later
      · next goesOn =>
        refine ih rest (opened.trans (Nat.le_succ index)) (fun _ => ?_) run member
        by_cases fits : limits.fits (.total (whole.extract start (index + 1))) = true
        · exact Or.inr ((fits_total limits _).mp fits)
        · simp only [Bool.and_eq_true, Bool.not_eq_true', decide_eq_true_eq, not_and,
            not_lt] at goesOn
          obtain rfl : start = index := Nat.le_antisymm opened (goesOn (Bool.eq_false_iff.mpr fits))
          exact Or.inl (by rw [alone, List.length_singleton])

theorem runs_tight (limits : Cells) (costs : List Cells) :
    ∀ run ∈ runs limits costs, Tight limits costs run := by
  have empty : Cells.total (costs.extract 0 0) = 0 := by
    simp [Cells.total]
    rfl
  have tight := runsFrom_tight limits (show costs.drop 0 = costs from List.drop_zero)
    (Nat.le_refl 0) fun impossible =>
    absurd impossible (by decide)
  rwa [empty] at tight

/-- Tight runs are no more than the parts of any permitted cut that begins no later. -/
theorem Covers.length_le {limits : Cells} {costs : List Cells} {first last start : Nat}
    {runs : List (Nat × Nat)} (covers : Covers first last runs) (ended : last = costs.length)
    (tight : ∀ run ∈ runs, Tight limits costs run) (early : start ≤ first)
    {parts : List (List Cells)} (cut : parts.flatten = costs.drop start)
    (permitted : ∀ part ∈ parts, Permitted limits part) : runs.length ≤ parts.length := by
  induction covers generalizing start parts with
  | nil index => exact Nat.zero_le _
  | @cons first next last runs nonempty rest ih =>
      have inside := rest.le
      cases parts with
      | nil =>
          have short : costs.length ≤ start := List.drop_eq_nil_iff.mp cut.symm
          omega
      | cons part parts =>
          rw [List.flatten_cons] at cut
          have length : part.length ≤ costs.length - start := by
            rw [← List.length_drop, ← cut, List.length_append]
            exact Nat.le_add_right _ _
          have others : parts.flatten = costs.drop (start + part.length) := by
            rw [← List.drop_drop, ← cut, List.drop_left]
          have own : part = costs.extract start (start + part.length) := by
            rw [List.extract_eq_take_drop, Nat.add_sub_cancel_left, ← cut, List.take_left]
          have reach : start + part.length ≤ next := by
            by_contra beyond
            rcases permitted part List.mem_cons_self with single | keeps
            · omega
            · rw [own] at keeps
              exact (tight _ List.mem_cons_self).full (show next < costs.length by omega)
                (keeps.sublist (extract_sublist costs early (by omega)))
          exact Nat.succ_le_succ
            (ih ended (fun run member => tight run (List.mem_cons_of_mem _ member)) reach others
            fun other member => permitted other (List.mem_cons_of_mem _ member))

end Slicing

namespace Vocabulary

def costs (vocab : Vocabulary) (words : List WordMeta) : List Cells :=
  words.map (WordMeta.cells vocab.numTopics)

/-- The words, in order, cut into as few slices as the
limits allow, each of them as long as they allow. -/
structure CutBy (limits : Cells) (vocab : Vocabulary) : Prop where
  ordered : Ordered vocab.words.toList
  whole : vocab.slices.toList.flatMap vocab.sliceWords = vocab.words.toList
  ends : ∀ (id : Nat) (run : SliceMeta), vocab.slices[id]? = some run → run.id = id ∧
    (vocab.sliceWords run).head?.map WordMeta.word = some run.firstWord ∧
    (vocab.sliceWords run).getLast?.map WordMeta.word = some run.lastWord
  permitted : ∀ run ∈ vocab.slices, Slicing.Permitted limits (vocab.costs (vocab.sliceWords run))
  full : ∀ (id : Nat) (run later : SliceMeta) (next : WordMeta), vocab.slices[id]? = some run →
    vocab.slices[id + 1]? = some later → (vocab.sliceWords later).head? = some next →
    ¬ Slicing.KeepsTo limits (vocab.costs (vocab.sliceWords run ++ [next]))
  fewest : ∀ parts : List (List WordMeta), parts.flatten = vocab.words.toList →
    (∀ part ∈ parts, Slicing.Permitted limits (vocab.costs part)) → vocab.slices.size ≤ parts.length

variable {vocab : Vocabulary}

theorem costs_extract (vocab : Vocabulary) (words : List WordMeta) (start stop : Nat) :
    vocab.costs (words.extract start stop) = (vocab.costs words).extract start stop := by
  simp only [costs, List.extract_eq_take_drop, List.map_take, List.map_drop]

theorem costs_sliceWords (vocab : Vocabulary) (run : SliceMeta) :
    vocab.costs (vocab.sliceWords run) = (vocab.costs vocab.words.toList).extract run.start
        run.stop := by
  rw [sliceWords, Array.toList_extract, costs_extract]

theorem Sliced.length_sliceWords (sliced : vocab.Sliced) {id : Nat} {run : SliceMeta}
    (there : vocab.slices[id]? = some run) :
    (vocab.sliceWords run).length = run.size := by
  rw [sliceWords, Array.length_toList, Array.size_extract, Nat.min_eq_left (sliced.bounds there).2]
  rfl

theorem Sliced.ends (sliced : vocab.Sliced) {id : Nat} {run : SliceMeta}
    (there : vocab.slices[id]? = some run) :
    (vocab.sliceWords run).head?.map WordMeta.word = some run.firstWord ∧
      (vocab.sliceWords run).getLast?.map WordMeta.word = some run.lastWord := by
  obtain ⟨nonempty, _⟩ := sliced.bounds there
  obtain ⟨_, firstWord, lastWord⟩ := sliced.words_eq there
  have size : run.size = run.stop - run.start := rfl
  obtain ⟨first, firstSeat⟩ := sliced.seats_of_lt there (show 0 < run.size by omega)
  obtain ⟨last, lastSeat⟩ := sliced.seats_of_lt there (show run.size - 1 < run.size by omega)
  constructor
  · rw [List.head?_eq_getElem?, (getElem?_sliceWords vocab run 0 first).mpr firstSeat,
      Option.map_some, firstWord, ← firstSeat.word_eq, Nat.add_zero]
  · rw [List.getLast?_eq_getElem?, sliced.length_sliceWords there,
      (getElem?_sliceWords vocab run _ last).mpr lastSeat, Option.map_some, lastWord,
      ← lastSeat.word_eq]
    congr 2
    omega

theorem Sliced.costs_append (sliced : vocab.Sliced) {id : Nat} {run later : SliceMeta}
    {next : WordMeta} (here : vocab.slices[id]? = some run)
    (there : vocab.slices[id + 1]? = some later)
    (first : (vocab.sliceWords later).head? = some next) :
    run.stop < vocab.words.size ∧ vocab.costs (vocab.sliceWords run ++ [next]) =
      (vocab.costs vocab.words.toList).extract run.start (run.stop + 1) := by
  have order := (sliced.bounds here).1
  have adjacent : (run.start, run.stop).2 = (later.start, later.stop).1 := by
    apply sliced.cut.next
    · rw [List.getElem?_map, Array.getElem?_toList, here, Option.map_some]
    · rw [List.getElem?_map, Array.getElem?_toList, there, Option.map_some]
  dsimp only at adjacent
  rw [List.head?_eq_getElem?] at first
  have seat := ((getElem?_sliceWords vocab later 0 next).mp first).entry
  rw [Nat.add_zero, ← adjacent] at seat
  obtain ⟨inside, own⟩ := Array.getElem?_eq_some_iff.mp seat
  refine ⟨inside, ?_⟩
  have left : vocab.words.toList.drop run.stop = next :: vocab.words.toList.drop
      (run.stop + 1) := by
    rw [List.drop_eq_getElem_cons (by simpa using inside), Array.getElem_toList, own]
  rw [← costs_extract, Slicing.extract_succ order.le left, sliceWords, Array.toList_extract]

section Slice

variable (limits : Cells) (vocab : Vocabulary)

theorem slice_tight : ∀ run ∈ (slice limits vocab).slices,
    Slicing.Tight limits (vocab.costs vocab.words.toList) (run.start, run.stop) := by
  intro run member
  apply Slicing.runs_tight limits (vocab.costs vocab.words.toList)
  rw [costs, ← slice_runs]
  exact List.mem_map_of_mem (Array.mem_toList_iff.mpr member)

theorem size_slice_le {parts : List (List WordMeta)} (cut : parts.flatten = vocab.words.toList)
    (permitted : ∀ part ∈ parts, Slicing.Permitted limits (vocab.costs part)) :
    (slice limits vocab).slices.size ≤ parts.length := by
  have covers := Slicing.runs_cover limits (vocab.costs vocab.words.toList)
  have tight := Slicing.runs_tight limits (vocab.costs vocab.words.toList)
  have cutCosts : (parts.map vocab.costs).flatten = (vocab.costs vocab.words.toList).drop 0 := by
    rw [List.drop_zero, ← cut, costs, List.map_flatten]
    rfl
  have permittedCosts : ∀ part ∈ parts.map vocab.costs, Slicing.Permitted limits part := by
    intro part member
    obtain ⟨words, listed, rfl⟩ := List.mem_map.mp member
    exact permitted words listed
  have fewest := covers.length_le rfl tight (Nat.le_refl 0) cutCosts permittedCosts
  rwa [costs, ← slice_runs, List.length_map, List.length_map, Array.length_toList] at fewest

end Slice

/-- Whatever the limits are and however its words were cut
before, a vocabulary is cut in the best way. -/
theorem slice_cutBy {terms : List (Nat × Nat)} {numTopics loadFactor : Nat}
    (made : ofFrequencies terms numTopics loadFactor = .ok vocab) (limits : Cells)
    (earlier : Array SliceMeta) :
    CutBy limits (slice limits { vocab with slices := earlier }) ∧
      slice limits { vocab with slices := earlier } = slice limits vocab := by
  have same : slice limits { vocab with slices := earlier } = slice limits vocab := rfl
  refine ⟨?_, same⟩
  rw [same]
  have sliced := slice_sliced limits vocab
  have tight := slice_tight limits vocab
  refine ⟨?_, sliced.flatMap_sliceWords, ?_, ?_, ?_, ?_⟩
  · obtain ⟨entries, laidOut, rfl⟩ := ofFrequencies_eq_ok made
    exact laidOut.ordered
  · exact fun id run there => ⟨(sliced.words_eq there).1, sliced.ends there⟩
  · intro run member
    rw [costs_sliceWords]
    exact (tight run member).permitted
  · intro id run later next here there first
    obtain ⟨inside, longer⟩ := sliced.costs_append here there first
    rw [longer]
    apply (tight run (Array.mem_of_getElem? here)).full
    rw [costs, List.length_map, Array.length_toList]
    exact inside
  · exact fun parts cut permitted => size_slice_le limits vocab cut permitted

/-- A word that breaks a limit by itself, and two that share
a slice, of words that had a slice each before. -/
theorem slice_cutBy_mixed : ∃ vocab, ofFrequencies [(9, 1), (3, 8), (5, 1)] 12 2 = .ok vocab ∧
    CutBy ⟨10, 0⟩ (slice ⟨10, 0⟩ { vocab with slices := (slice ⟨1, 1⟩ vocab).slices }) ∧
    (slice ⟨1, 1⟩ vocab).slices.size = 3 ∧
      (slice ⟨10, 0⟩ vocab).slices = #[⟨0, 3, 3, 0, 1⟩, ⟨1, 5, 9, 1, 3⟩] := by
  have made : ofFrequencies [(9, 1), (3, 8), (5, 1)] 12 2 =
      .ok ⟨12, #[⟨3, 8, .dense, true⟩, ⟨5, 1, .sparse 2, false⟩, ⟨9, 1, .sparse 2, false⟩],
      #[⟨0, 3, 9, 0, 3⟩]⟩ := by
    cbv
  exact ⟨_, made, (slice_cutBy made ⟨10, 0⟩ _).1, by decide +kernel, by decide +kernel⟩

end Vocabulary

end LatentTopics
