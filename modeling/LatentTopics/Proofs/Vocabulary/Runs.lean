import Mathlib
import LatentTopics.Proofs.Search
import LatentTopics.Proofs.Vocabulary.Terms

/-! The cut of a vocabulary. The runs follow each other without a gap from the first word to the
last one, and the slices of a vocabulary are its words along these runs. -/
namespace LatentTopics

namespace Slicing

inductive Covers : Nat → Nat → List (Nat × Nat) → Prop where
  | nil (index : Nat) : Covers index index []
  | cons {first next last : Nat} {runs : List (Nat × Nat)} (nonempty : first < next)
      (rest : Covers next last runs) :
      Covers first last ((first, next) :: runs)

theorem runsFrom_covers (limits : Cells) (costs : List Cells) {start index : Nat}
    (opened : start ≤ index) (used : Cells) :
    Covers start (index + costs.length) (runsFrom limits costs start index used) := by
  induction costs generalizing start index used with
  | nil =>
      rw [runsFrom, List.length_nil, Nat.add_zero]
      split
      · next nonempty => exact .cons nonempty (.nil index)
      · next empty =>
        obtain rfl : start = index := by omega
        exact .nil start
  | cons cost costs ih =>
      have shape : index + (cost :: costs).length = index + 1 + costs.length := by
        rw [List.length_cons]
        omega
      rw [runsFrom, shape]
      -- A run is closed only when it holds a word, so that no run is empty.
      split
      · next close =>
        simp only [Bool.and_eq_true, decide_eq_true_eq] at close
        exact .cons close.2 (ih (Nat.le_succ index) cost)
      · exact ih (by omega) (used + cost)

theorem runs_cover (limits : Cells) (costs : List Cells) :
    Covers 0 costs.length (runs limits costs) := by
  have covers := runsFrom_covers limits costs (Nat.le_refl 0) 0
  rwa [Nat.zero_add] at covers

theorem Covers.le {first last : Nat} {runs : List (Nat × Nat)} (covers : Covers first last runs) :
    first ≤ last := by
  induction covers with
  | nil index => exact Nat.le_refl index
  | cons nonempty rest ih => exact Nat.le_trans (Nat.le_of_lt nonempty) ih

theorem Covers.mem {first last : Nat} {runs : List (Nat × Nat)} (covers : Covers first last runs)
    {run : Nat × Nat} (member : run ∈ runs) : first ≤ run.1 ∧ run.1 < run.2 ∧ run.2 ≤ last := by
  induction covers with
  | nil index => cases member
  | cons nonempty rest ih =>
      rcases List.mem_cons.mp member with rfl | later
      · exact ⟨Nat.le_refl _, nonempty, rest.le⟩
      · obtain ⟨after, inside, most⟩ := ih later
        exact ⟨by omega, inside, most⟩

theorem Covers.pairwise {first last : Nat} {runs : List (Nat × Nat)}
    (covers : Covers first last runs) :
    runs.Pairwise fun run later => run.2 ≤ later.1 := by
  induction covers with
  | nil index => exact List.Pairwise.nil
  | cons nonempty rest ih =>
      exact List.pairwise_cons.mpr ⟨fun run member => (rest.mem member).1, ih⟩

theorem Covers.next {first last : Nat} {runs : List (Nat × Nat)} (covers : Covers first last runs)
    {index : Nat} {run later : Nat × Nat} (here : runs[index]? = some run)
    (there : runs[index + 1]? = some later) : run.2 = later.1 := by
  induction covers generalizing index with
  | nil index => cases here
  | cons nonempty rest ih =>
      cases index with
      | succ index => exact ih here there
      | zero =>
          obtain rfl := Option.some.inj here
          cases rest with
          | nil index => cases there
          | cons nonempty rest =>
              obtain rfl := Option.some.inj there
              rfl

theorem Covers.flatMap_extract {α : Type} {first last : Nat} {runs : List (Nat × Nat)}
    (covers : Covers first last runs) (entries : List α) :
    runs.flatMap (fun run => entries.extract run.1 run.2) = entries.extract first last := by
  induction covers with
  | nil index => simp
  | @cons first next last runs nonempty rest ih =>
      rw [List.flatMap_cons, ih]
      have later := rest.le
      have sizes : last - first = next - first + (last - next) := by omega
      have reached : first + (next - first) = next := by omega
      simp only [List.extract_eq_take_drop]
      rw [sizes, List.take_add, List.drop_drop, reached]

end Slicing

namespace Vocabulary

/-- The slices are runs of words that cover them, each with the data of its run. -/
structure Sliced (vocab : Vocabulary) : Prop where
  cut : Slicing.Covers 0 vocab.words.size (vocab.slices.toList.map fun entry =>
    (entry.start, entry.stop))
  place : ∀ (id : Nat) (entry : SliceMeta), vocab.slices[id]? = some entry →
    entry = vocab.sliceOfRun id (entry.start, entry.stop)

theorem slice_runs (limits : Cells) (vocab : Vocabulary) :
    ((slice limits vocab).slices.toList.map fun entry => (entry.start, entry.stop)) =
      Slicing.runs limits (vocab.words.toList.map (WordMeta.cells vocab.numTopics)) := by
  simp only [slice]
  apply List.ext_getElem?
  intro id
  rw [List.getElem?_map, List.getElem?_mapIdx, Option.map_map]
  exact Option.map_id'

theorem slice_sliced (limits : Cells) (vocab : Vocabulary) : Sliced (slice limits vocab) := by
  have same : ∀ run, (slice limits vocab).sliceOfRun run = vocab.sliceOfRun run := fun run => rfl
  constructor
  · have runs := Slicing.runs_cover limits (vocab.words.toList.map (WordMeta.cells vocab.numTopics))
    rw [List.length_map, Array.length_toList] at runs
    rw [slice_runs]
    exact runs
  · intro id entry here
    rw [same]
    simp only [slice, List.getElem?_toArray, List.getElem?_mapIdx, Option.map_eq_some_iff] at here
    obtain ⟨run, _, rfl⟩ := here
    rfl

theorem Sliced.flatMap_sliceWords {vocab : Vocabulary} (sliced : Sliced vocab) :
    vocab.slices.toList.flatMap vocab.sliceWords = vocab.words.toList := by
  have parts := sliced.cut.flatMap_extract vocab.words.toList
  have whole : vocab.words.toList.extract 0 vocab.words.size = vocab.words.toList := by
    simp
  rw [List.flatMap_map, whole] at parts
  rw [← parts]
  congr 1
  funext entry
  rw [sliceWords, Array.toList_extract]

theorem mem_sliceWords {vocab : Vocabulary} {entry : SliceMeta} {word : WordMeta} :
    word ∈ vocab.sliceWords entry ↔
      ∃ index, entry.start ≤ index ∧ index < entry.stop ∧ vocab.words[index]? = some word := by
  rw [sliceWords, Array.mem_toList_iff, Array.mem_iff_getElem?]
  constructor
  · rintro ⟨position, here⟩
    rw [Array.getElem?_extract] at here
    split at here
    · next inside => exact ⟨entry.start + position, by omega, by omega, here⟩
    · cases here
  · rintro ⟨index, least, below, here⟩
    obtain ⟨inside, _⟩ := Array.getElem?_eq_some_iff.mp here
    refine ⟨index - entry.start, ?_⟩
    rw [Array.getElem?_extract, if_pos (by omega), Nat.add_sub_cancel' least, here]

theorem Sliced.bounds {vocab : Vocabulary} (sliced : Sliced vocab) {id : Nat} {entry : SliceMeta}
    (here : vocab.slices[id]? = some entry) :
    entry.start < entry.stop ∧ entry.stop ≤ vocab.words.size := by
  have member : (entry.start, entry.stop) ∈ vocab.slices.toList.map fun entry =>
      (entry.start, entry.stop) :=
    List.mem_map_of_mem (Array.mem_toList_iff.mpr (Array.mem_of_getElem? here))
  exact (sliced.cut.mem member).2

theorem Sliced.stop_le_start {vocab : Vocabulary} (sliced : Sliced vocab) {first second : Nat}
    {entry later : SliceMeta} (before : first < second) (here : vocab.slices[first]? = some entry)
    (there : vocab.slices[second]? = some later) :
    entry.stop ≤ later.start := by
  have apart := List.pairwise_map.mp sliced.cut.pairwise
  obtain ⟨inside, rfl⟩ := Array.getElem?_eq_some_iff.mp here
  obtain ⟨inside', rfl⟩ := Array.getElem?_eq_some_iff.mp there
  exact List.pairwise_iff_getElem.mp apart first second (by simpa using inside)
    (by simpa using inside') before

end Vocabulary

end LatentTopics
