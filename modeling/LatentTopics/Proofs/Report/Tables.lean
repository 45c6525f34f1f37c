import Mathlib
import LatentTopics.Report
import LatentTopics.Proofs.Counts.Checked

/-! Tables of counts. The table of a store and the words of its topics are determined by the counts,
since they are sorted by orders in which no two of their entries are equal. How the words are cut
into slices and where a row holds its counts makes no difference. -/
namespace LatentTopics.Report

/-- The counts that are not zero as a table: its words are
in order, and so are the topics of a word. -/
structure Tabulates (counts : Nat → Nat → Int) (table : List (Nat × List (Nat × Int))) : Prop where
  words : (table.map Prod.fst).Pairwise (· < ·)
  nonempty : ∀ line ∈ table, line.2 ≠ []
  topics : ∀ line ∈ table, (line.2.map Prod.fst).Pairwise (· < ·)
  entries : ∀ word topic count, (∃ pairs, (word, pairs) ∈ table ∧ (topic, count) ∈ pairs) ↔
    count ≠ 0 ∧ counts word topic = count

def Outranks (first second : Nat × Int) : Prop :=
  second.2 < first.2 ∨ first.2 = second.2 ∧ first.1 < second.1

/-- The words of a topic by rank, with their counts. -/
structure Ranks (counts : Nat → Int) (words : List (Nat × Int)) : Prop where
  ordered : words.Pairwise Outranks
  entries : ∀ word count, (word, count) ∈ words ↔ count ≠ 0 ∧ counts word = count

section Uniqueness

variable {counts : Nat → Nat → Int} {table other : List (Nat × List (Nat × Int))}

theorem Tabulates.line (tabulates : Tabulates counts table) {word : Nat} {pairs : List (Nat × Int)}
    (member : (word, pairs) ∈ table) (pair : Nat × Int) :
    pair ∈ pairs ↔ pair.2 ≠ 0 ∧ counts word pair.1 = pair.2 := by
  rw [← tabulates.entries]
  constructor
  · exact fun inside => ⟨pairs, member, inside⟩
  · rintro ⟨others, listed, inside⟩
    have distinct := List.Nodup.of_map Prod.fst (tabulates.words.imp Nat.ne_of_lt)
    have same := List.inj_on_of_nodup_map (tabulates.words.imp Nat.ne_of_lt) listed member rfl
    exact (Prod.mk.inj same).2 ▸ inside

theorem Tabulates.subset (tabulates : Tabulates counts table) (again : Tabulates counts other)
    {line : Nat × List (Nat × Int)} (member : line ∈ table) : line ∈ other := by
  obtain ⟨word, pairs⟩ := line
  obtain ⟨pair, inside⟩ := List.exists_mem_of_ne_nil pairs (tabulates.nonempty _ member)
  have own := (tabulates.line member pair).mp inside
  obtain ⟨others, listed, _⟩ := (again.entries word pair.1 pair.2).mpr own
  have same : pairs = others := by
    apply Number.eq_of_ordered (fun first second => first.1 < second.1) (fun _ _ => Nat.lt_asymm)
    · exact List.pairwise_map.mp (tabulates.topics _ member)
    · exact List.pairwise_map.mp (again.topics _ listed)
    · exact fun pair => (tabulates.line member pair).trans (again.line listed pair).symm
  exact same ▸ listed

theorem Tabulates.unique (tabulates : Tabulates counts table) (again : Tabulates counts other) :
    table = other := by
  apply Number.eq_of_ordered (fun first second => first.1 < second.1) (fun _ _ => Nat.lt_asymm)
  · exact List.pairwise_map.mp tabulates.words
  · exact List.pairwise_map.mp again.words
  · exact fun line => ⟨tabulates.subset again, again.subset tabulates⟩

theorem Outranks.asymm (first second : Nat × Int) (above : Outranks first second) :
    ¬ Outranks second first := by
  rw [Outranks] at *
  omega

theorem Ranks.unique {counts : Nat → Int} {words others : List (Nat × Int)}
    (ranks : Ranks counts words) (again : Ranks counts others) : words = others :=
  Number.eq_of_ordered Outranks Outranks.asymm ranks.ordered again.ordered fun _ =>
    (ranks.entries _ _).trans (again.entries _ _).symm

end Uniqueness

variable {vocab : Vocabulary} {store : Store}

theorem mem_rows_pairs (lawful : vocab.Lawful) (fits : store.Fits vocab) (word topic : Nat)
    (count : Int) :
    (∃ row, (word, row) ∈ store.rows ∧ (topic, count) ∈ row.pairs) ↔ count ≠ 0 ∧
      store.count word topic = count := by
  constructor
  · rintro ⟨row, member, inside⟩
    obtain ⟨sound, counts⟩ := fits.rows_counts lawful member
    rw [← counts]
    exact (Row.mem_pairs sound topic count).mp inside
  · rintro ⟨nonzero, same⟩
    obtain ⟨row, member, sound, counts⟩ :=
      fits.exists_row lawful (fits.known_of_count lawful (same.trans_ne nonzero))
    exact ⟨row, member, (Row.mem_pairs sound topic count).mpr ⟨nonzero, (counts topic).trans same⟩⟩

section Lines

theorem wordTopics_eq (store : Store) : wordTopics store =
    (store.rows.filter fun row => !row.2.pairs.isEmpty).map fun row =>
        (row.1, row.2.pairs.mergeSort pairOrder) := by
  rw [wordTopics, ← List.filterMap_eq_map, List.filterMap_filter]
  apply congrArg fun line => List.filterMap line store.rows
  funext row
  cases pairs : row.2.pairs <;> simp [pairs]

theorem mem_wordTopics (store : Store) (word : Nat) (pairs : List (Nat × Int)) :
    (word, pairs) ∈ wordTopics store ↔
    ∃ row, (word, row) ∈ store.rows ∧ row.pairs ≠ [] ∧ pairs = row.pairs.mergeSort pairOrder := by
  rw [wordTopics_eq, List.mem_map]
  constructor
  · rintro ⟨⟨_, row⟩, member, same⟩
    obtain ⟨rfl, rfl⟩ := Prod.mk.inj same
    obtain ⟨listed, some⟩ := List.mem_filter.mp member
    exact ⟨row, listed, by simpa using some, rfl⟩
  · rintro ⟨row, listed, some, rfl⟩
    exact ⟨(word, row), List.mem_filter.mpr ⟨listed, by simpa using some⟩, rfl⟩

theorem sorted_pairOrder (pairs : List (Nat × Int)) :
    (pairs.mergeSort pairOrder).Pairwise fun first second => pairOrder first second = true := by
  apply List.pairwise_mergeSort
  · intro first second third
    simp only [pairOrder]
    grind
  · intro first second
    simp only [pairOrder]
    grind

/-- Each topic of a row has one pair, so that the topics decide the order. -/
theorem increasing_mergeSort {row : Row} (sound : row.Sound) :
    ((row.pairs.mergeSort pairOrder).map Prod.fst).Pairwise (· < ·) := by
  have distinct : ((row.pairs.mergeSort pairOrder).map Prod.fst).Nodup :=
    ((List.mergeSort_perm row.pairs pairOrder).map Prod.fst).nodup_iff.mpr
      (Row.pairs_topics_nodup sound)
  rw [List.pairwise_map]
  apply ((sorted_pairOrder row.pairs).and (List.pairwise_map.mp distinct)).imp
  rintro first second ⟨before, different⟩
  rw [pairOrder, if_pos different] at before
  exact of_decide_eq_true before

theorem tabulates_wordTopics (lawful : vocab.Lawful) (fits : store.Fits vocab) :
    Tabulates store.count (wordTopics store) where
  words := by
    have ordered : (store.rows.map Prod.fst).Pairwise (· < ·) := by
      rw [fits.rows_words lawful]
      exact List.pairwise_map.mpr lawful.ordered
    rw [wordTopics_eq, List.map_map]
    exact ordered.sublist (List.filter_sublist.map Prod.fst)
  nonempty := by
    rintro ⟨word, pairs⟩ member
    obtain ⟨row, -, some, rfl⟩ := (mem_wordTopics store word pairs).mp member
    intro none
    exact some (List.Perm.nil_eq ((none : _ = []) ▸ List.mergeSort_perm row.pairs pairOrder)).symm
  topics := by
    rintro ⟨word, pairs⟩ member
    obtain ⟨row, listed, -, rfl⟩ := (mem_wordTopics store word pairs).mp member
    exact increasing_mergeSort (fits.rows_counts lawful listed).1
  entries word topic count := by
    rw [← mem_rows_pairs lawful fits]
    constructor
    · rintro ⟨pairs, member, inside⟩
      obtain ⟨row, listed, -, rfl⟩ := (mem_wordTopics store word pairs).mp member
      exact ⟨row, listed, List.mem_mergeSort.mp inside⟩
    · rintro ⟨row, listed, inside⟩
      exact ⟨_, (mem_wordTopics store word _).mpr ⟨row, listed, List.ne_nil_of_mem inside, rfl⟩,
        List.mem_mergeSort.mpr inside⟩

end Lines

section Ranking

def entriesOf (topic : Nat) (row : Nat × Row) : List (Nat × Int) :=
  (row.2.pairs.filter fun pair => pair.1 = topic).map fun pair => (row.1, pair.2)

theorem getElem?_addPairs (word topic : Nat) (pairs : List (Nat × Int))
    (topics : Array (List (Nat × Int))) :
    (addPairs word pairs topics)[topic]? =
      topics[topic]?.map (((pairs.filter fun pair => pair.1 = topic).map fun pair =>
        (word, pair.2)).reverse ++ ·) := by
  induction pairs generalizing topics with
  | nil => simp [addPairs]
  | cons pair pairs ih =>
      rw [show addPairs word (pair :: pairs) topics =
        addPairs word pairs (topics.modify pair.1 ((word, pair.2) :: ·)) from rfl, ih,
        Array.getElem?_modify, List.filter_cons]
      by_cases own : pair.1 = topic
      · simp [own, Function.comp_def]
      · simp [own]

theorem getElem?_foldl (topic : Nat) (rows : List (Nat × Row)) (topics : Array (List (Nat × Int))) :
    (rows.foldl (fun topics (word, row) => addPairs word row.pairs topics) topics)[topic]? =
      topics[topic]?.map ((rows.flatMap (entriesOf topic)).reverse ++ ·) := by
  induction rows generalizing topics with
  | nil => simp
  | cons row rows ih =>
      rw [List.foldl_cons, ih, getElem?_addPairs, Option.map_map, List.flatMap_cons,
        List.reverse_append]
      simp only [Function.comp_def, List.append_assoc, entriesOf]

theorem getElem?_wordsByTopic (numTopics topic : Nat) (store : Store) :
    (wordsByTopic numTopics store)[topic]? =
    if topic < numTopics then some (store.rows.flatMap (entriesOf topic)).reverse else none := by
  rw [wordsByTopic, getElem?_foldl, Array.getElem?_replicate]
  split
  · rw [Option.map_some, List.append_nil, Store.rows]
  · rfl

theorem sorted_rankOrder (words : List (Nat × Int)) :
    (words.mergeSort rankOrder).Pairwise fun first second => rankOrder first second = true := by
  apply List.pairwise_mergeSort
  · intro first second third
    simp only [rankOrder]
    grind
  · intro first second
    simp only [rankOrder]
    grind

theorem nodup_entries (lawful : vocab.Lawful) (fits : store.Fits vocab) (topic : Nat) :
    (store.rows.flatMap (entriesOf topic)).Nodup := by
  rw [List.nodup_flatMap]
  constructor
  · rintro ⟨word, row⟩ member
    have distinct :=
      List.Nodup.of_map Prod.fst (Row.pairs_topics_nodup (fits.rows_counts lawful member).1)
    apply List.Nodup.map_on _ (distinct.filter _)
    rintro ⟨first, count⟩ here ⟨second, count'⟩ there same
    simp only [List.mem_filter, decide_eq_true_eq, Prod.mk.injEq, true_and] at here there same
    rw [here.2, there.2, same]
  · apply (List.pairwise_map.mp (fits.rows_nodup lawful)).imp
    intro first second different entry here there
    obtain ⟨_, _, rfl⟩ := List.mem_map.mp here
    obtain ⟨_, _, same⟩ := List.mem_map.mp there
    exact different (Prod.mk.inj same).1.symm

theorem ranks_mergeSort (lawful : vocab.Lawful) (fits : store.Fits vocab) (topic : Nat) :
    Ranks (store.count · topic)
        ((store.rows.flatMap (entriesOf topic)).reverse.mergeSort rankOrder) where
  ordered := by
    have distinct : ((store.rows.flatMap (entriesOf topic)).reverse.mergeSort rankOrder).Nodup :=
      (List.mergeSort_perm _ rankOrder).nodup_iff.mpr
        (List.nodup_reverse.mpr (nodup_entries lawful fits topic))
    apply ((sorted_rankOrder _).and distinct).imp
    rintro ⟨word, count⟩ ⟨other, less⟩ ⟨before, different⟩
    simp only [rankOrder, Outranks] at *
    grind
  entries word count := by
    rw [← mem_rows_pairs lawful fits, List.mem_mergeSort, List.mem_reverse, List.mem_flatMap]
    constructor
    · rintro ⟨⟨owner, row⟩, member, inside⟩
      obtain ⟨⟨other, found⟩, listed, same⟩ := List.mem_map.mp inside
      obtain ⟨inRow, own⟩ := List.mem_filter.mp listed
      obtain ⟨rfl, rfl⟩ := Prod.mk.inj same
      exact ⟨row, member, of_decide_eq_true own ▸ inRow⟩
    · rintro ⟨row, member, inside⟩
      exact ⟨_, member, List.mem_map.mpr ⟨_, List.mem_filter.mpr ⟨inside, decide_eq_true rfl⟩, rfl⟩⟩

theorem getElem?_topWords (lawful : vocab.Lawful) (fits : store.Fits vocab) (numTopics topic : Nat)
    (below : topic < numTopics) :
    ∃ words, Ranks (store.count · topic) words ∧
      ∀ limit, (topWords numTopics limit store)[topic]? = some (words.take limit) := by
  refine ⟨_, ranks_mergeSort lawful fits topic, fun limit => ?_⟩
  rw [topWords, List.getElem?_map, Array.getElem?_toList, getElem?_wordsByTopic, if_pos below]
  rfl

theorem length_topWords (numTopics limit : Nat) (store : Store) :
    (topWords numTopics limit store).length = numTopics := by
  have last : ∀ topic, (wordsByTopic numTopics store)[topic]? = none ↔ numTopics ≤ topic := by
    intro topic
    rw [getElem?_wordsByTopic]
    split <;> simp_all
  have size : ∀ topic, (wordsByTopic numTopics store).size ≤ topic ↔ numTopics ≤ topic := by
    intro topic
    rw [← last, Array.getElem?_eq_none_iff]
  rw [topWords, List.length_map, Array.length_toList]
  exact le_antisymm ((size _).mpr le_rfl) ((size _).mp le_rfl)

end Ranking

end LatentTopics.Report
