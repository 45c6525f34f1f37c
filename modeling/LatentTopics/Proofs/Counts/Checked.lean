import Mathlib
import LatentTopics.Counts.Store
import LatentTopics.Proofs.Counts.Stores

/-! The check of a store. It accepts a store just when the store tallies some tokens of the
vocabulary's words, as many of each word as its frequency says. -/
namespace LatentTopics

namespace Store

def rows (store : Store) : List (Nat × Row) :=
  store.slices.toList.flatMap Slice.rows

def tokens (store : Store) : List Token :=
  store.rows.flatMap fun row => row.2.tokens row.1

section Check

def Countable (numTopics : Nat) (pairs : List (Nat × Int)) : Prop :=
  ∀ pair ∈ pairs, 0 ≤ pair.2 ∧ pair.1 < numTopics

theorem checkPairs_countable {pairs : List (Nat × Int)} {total : Int} {columns : Array Int}
    {sums : Int × Array Int} (accepted : checkPairs pairs total columns = .ok sums) :
    Countable columns.size pairs := by
  induction pairs generalizing total columns with
  | nil => exact fun pair member => absurd member List.not_mem_nil
  | cons pair pairs ih =>
      obtain ⟨topic, count⟩ := pair
      rw [checkPairs] at accepted
      split at accepted
      · cases accepted
      · next nonneg =>
        split at accepted
        · next below =>
          intro other member
          rcases List.mem_cons.mp member with rfl | later
          · exact ⟨not_lt.mp nonneg, below⟩
          · have rest := ih accepted other later
            rwa [Array.size_modify] at rest
        · cases accepted

theorem checkPairs_ok (word : Nat) {pairs : List (Nat × Int)} (total : Int) {columns : Array Int}
    (countable : Countable columns.size pairs) :
    ∃ sums : Array Int, checkPairs pairs total columns =
        .ok (total + (Row.copies word pairs).length, sums) ∧
      sums.size = columns.size ∧
      ∀ topic, sums.getD topic 0 = columns.getD topic 0 +
        (Row.copies word pairs).countP fun token => token.topic = topic := by
  induction pairs generalizing total columns with
  | nil => exact ⟨columns, by simp [checkPairs, Row.copies], rfl, by simp [Row.copies]⟩
  | cons pair pairs ih =>
      obtain ⟨topic, count⟩ := pair
      obtain ⟨nonneg, below⟩ := countable _ List.mem_cons_self
      dsimp only at nonneg below
      have later : Countable (columns.modify topic (· + count)).size pairs := by
        rw [Array.size_modify]
        exact fun other member => countable other (List.mem_cons_of_mem _ member)
      obtain ⟨sums, accepted, size, columnsAfter⟩ := ih (total + count) later
      refine ⟨sums, ?_, ?_, ?_⟩
      · rw [checkPairs, if_neg (not_lt.mpr nonneg), if_pos below, accepted, Row.copies_cons,
          List.length_append, List.length_replicate]
        congr 2
        push_cast
        omega
      · rw [size, Array.size_modify]
      · intro other
        rw [columnsAfter, Arrays.getD_modify columns below, Row.copies_cons, List.countP_append,
          List.countP_replicate]
        by_cases same : topic = other
        · simp only [same, if_true, decide_true]
          push_cast
          omega
        · simp only [same, if_false, decide_false, Bool.false_eq_true]
          omega

def Whole (vocab : Vocabulary) (numTopics : Nat) (row : Nat × Row) : Prop :=
  Countable numTopics row.2.pairs ∧ (row.2.tokens row.1).length = vocab.frequency row.1

theorem checkRows_whole {vocab : Vocabulary} {rows : List (Nat × Row)} {columns sums : Array Int}
    (accepted : checkRows vocab rows columns = .ok sums) :
    ∀ row ∈ rows, Whole vocab columns.size row := by
  induction rows generalizing columns with
  | nil => exact fun row member => absurd member List.not_mem_nil
  | cons row rows ih =>
      obtain ⟨word, row⟩ := row
      rw [checkRows] at accepted
      split at accepted
      · cases accepted
      · next total columnsAfter checked =>
        have countable := checkPairs_countable checked
        obtain ⟨sums, again, size, _⟩ := checkPairs_ok word 0 countable
        rw [again] at checked
        obtain ⟨rfl, rfl⟩ := Prod.mk.inj (Except.ok.inj checked)
        dsimp only at accepted
        split at accepted
        · cases accepted
        · next same =>
          intro other member
          rcases List.mem_cons.mp member with rfl | later
          · refine ⟨countable, ?_⟩
            have := not_not.mp same
            rw [Int.zero_add] at this
            exact_mod_cast this
          · rw [← size]
            exact ih accepted other later

theorem checkRows_ok {vocab : Vocabulary} {rows : List (Nat × Row)} {columns : Array Int}
    (whole : ∀ row ∈ rows, Whole vocab columns.size row) :
    ∃ sums : Array Int, checkRows vocab rows columns = .ok sums ∧ sums.size = columns.size ∧
      ∀ topic, sums.getD topic 0 = columns.getD topic 0 +
        (rows.flatMap fun row => row.2.tokens row.1).countP fun token => token.topic = topic := by
  induction rows generalizing columns with
  | nil => exact ⟨columns, rfl, rfl, by simp⟩
  | cons row rows ih =>
      obtain ⟨word, row⟩ := row
      obtain ⟨countable, length⟩ := whole _ List.mem_cons_self
      obtain ⟨next, accepted, size, columnsNext⟩ := checkPairs_ok word 0 countable
      dsimp only [Row.tokens] at length
      have later : ∀ row ∈ rows, Whole vocab next.size row := by
        rw [size]
        exact fun other member => whole other (List.mem_cons_of_mem _ member)
      obtain ⟨sums, acceptedRest, sizeRest, columnsRest⟩ := ih later
      refine ⟨sums, ?_, sizeRest.trans size, ?_⟩
      · rw [checkRows, accepted]
        dsimp only
        rw [length, Int.zero_add, if_neg (not_not.mpr rfl)]
        exact acceptedRest
      · intro topic
        rw [columnsRest, columnsNext, List.flatMap_cons, List.countP_append, Row.tokens]
        push_cast
        omega

theorem checkTotals_eq_ok (totals : List (Int × Int)) (topic : Nat) :
    checkTotals totals topic = .ok () ↔ ∀ pair ∈ totals, pair.1 = pair.2 := by
  induction totals generalizing topic with
  | nil => exact ⟨fun _ pair member => absurd member List.not_mem_nil, fun _ => rfl⟩
  | cons pair totals ih =>
      obtain ⟨expected, actual⟩ := pair
      rw [checkTotals, List.forall_mem_cons]
      by_cases same : expected = actual
      · rw [if_neg (not_not.mpr same), ih]
        simp [same]
      · rw [if_pos same]
        simp [same]

theorem forall_zip_iff {columns counts : Array Int} (size : columns.size = counts.size) :
    (∀ pair ∈ (columns.zip counts).toList, pair.1 = pair.2) ↔
      ∀ topic < counts.size, columns.getD topic 0 = counts.getD topic 0 := by
  have entry : ∀ topic, (below : topic < counts.size) → (columns.zip counts)[topic]? =
      some (columns.getD topic 0, counts.getD topic 0) := by
    intro topic below
    have below' : topic < columns.size := size ▸ below
    simp [Array.getD_eq_getD_getElem?, below, below']
  constructor
  · intro every topic below
    exact every _ (Array.mem_toList_iff.mpr (Array.mem_of_getElem? (entry topic below)))
  · intro every pair member
    obtain ⟨topic, here⟩ := Array.getElem?_of_mem (Array.mem_toList_iff.mp member)
    have below : topic < counts.size := by
      have inside := (Array.getElem?_eq_some_iff.mp here).1
      rw [Array.size_zip] at inside
      omega
    rw [entry topic below] at here
    rw [← Option.some.inj here]
    exact every topic below

theorem check_eq_ok (vocab : Vocabulary) (store : Store) : check vocab store = .ok () ↔
    (∀ row ∈ store.rows, Whole vocab store.summary.numTopics row) ∧
      ∀ topic < store.summary.numTopics, store.summary.get topic =
        Tokens.ofTopic store.tokens topic := by
  have rows : store.slices.toList.flatMap Slice.rows = store.rows := rfl
  have empty : (Array.replicate store.summary.numTopics (0 : Int)).size = store.summary.numTopics :=
    Array.size_replicate
  -- Once the rows are accepted their columns are the totals of the tokens.
  have totals : (∀ row ∈ store.rows, Whole vocab store.summary.numTopics row) →
      (check vocab store = .ok () ↔ ∀ topic < store.summary.numTopics, store.summary.get topic =
      Tokens.ofTopic store.tokens topic) := by
    intro whole
    rw [← empty] at whole
    obtain ⟨sums, accepted, size, columns⟩ := checkRows_ok whole
    rw [empty] at size
    have column : ∀ topic, sums.getD topic 0 = Tokens.ofTopic store.tokens topic := by
      intro topic
      rw [columns, Arrays.getD_replicate, Int.zero_add, Tokens.ofTopic, Multiset.coe_countP]
      rfl
    rw [check, rows, accepted]
    dsimp only
    rw [checkTotals_eq_ok, forall_zip_iff size]
    simp only [column]
    exact forall₂_congr fun topic below => eq_comm
  constructor
  · intro accepted
    have whole : ∀ row ∈ store.rows, Whole vocab store.summary.numTopics row := by
      rw [check] at accepted
      split at accepted
      · cases accepted
      · next checked => exact empty ▸ checkRows_whole checked
    exact ⟨whole, (totals whole).mp accepted⟩
  · rintro ⟨whole, same⟩
    exact (totals whole).mpr same

end Check

section Rows

variable {vocab : Vocabulary} {store : Store}

theorem mem_slice_rows {slice : Slice} (valid : slice.Valid) {word : Nat} {row : Row}
    (member : (word, row) ∈ slice.rows) :
    word ∈ slice.words ∧ row.Sound ∧ ∀ topic, row.get topic = slice.count word topic := by
  rw [Slice.rows, List.mem_map] at member
  obtain ⟨⟨found, layout⟩, inside, same⟩ := member
  obtain ⟨rfl, rfl⟩ := Prod.mk.inj same
  obtain ⟨index, here⟩ := Array.getElem?_of_mem (Array.mem_toList_iff.mp inside)
  obtain ⟨word, place⟩ := Array.getElem?_zip_eq_some.mp here
  refine ⟨Array.mem_of_getElem? word, valid.arena.row_sound place, ?_⟩
  intro topic
  rw [valid.count_eq word, Arena.get_of_layout place]

theorem slice_rows_words {slice : Slice} (valid : slice.Valid) :
    slice.rows.map Prod.fst = slice.words.toList := by
  rw [Slice.rows, List.map_map, Array.toList_zip]
  exact List.map_fst_zip (by simpa using valid.rows.ge)

theorem Fits.mem_rows (fits : Fits vocab store) {word : Nat} {row : Row}
    (member : (word, row) ∈ store.rows) :
    ∃ (id : Nat) (slice : Slice), store.slices[id]? = some slice ∧ word ∈ slice.words ∧ row.Sound ∧
      ∀ topic, row.get topic = slice.count word topic := by
  obtain ⟨slice, inside, found⟩ := List.mem_flatMap.mp member
  obtain ⟨id, here⟩ := Array.getElem?_of_mem (Array.mem_toList_iff.mp inside)
  obtain ⟨_, _, valid, _⟩ := fits.entry here
  exact ⟨id, slice, here, mem_slice_rows valid found⟩

theorem Fits.rows_words (lawful : vocab.Lawful) (fits : Fits vocab store) :
    store.rows.map Prod.fst = vocab.words.toList.map WordMeta.word := by
  have words : store.slices.toList.map (fun slice => slice.rows.map Prod.fst) =
      vocab.slices.toList.map (fun entry => (vocab.sliceWords entry).map WordMeta.word) := by
    apply List.ext_getElem?
    intro id
    rw [List.getElem?_map, List.getElem?_map, Array.getElem?_toList, Array.getElem?_toList]
    cases here : store.slices[id]? with
    | none =>
        have outside : vocab.slices.size ≤ id := fits.size ▸ Array.getElem?_eq_none_iff.mp here
        rw [Array.getElem?_eq_none outside]
        rfl
    | some slice =>
        obtain ⟨entry, there, valid, shape⟩ := fits.entry here
        rw [there, Option.map_some, Option.map_some, slice_rows_words valid, shape.words,
          Slice.ofVocabulary]
  rw [rows, List.map_flatMap, ← lawful.sliced.flatMap_sliceWords, List.map_flatMap,
    List.flatMap_def, List.flatMap_def, words]

theorem Fits.rows_nodup (lawful : vocab.Lawful) (fits : Fits vocab store) :
    (store.rows.map Prod.fst).Nodup := by
  rw [fits.rows_words lawful]
  apply (List.pairwise_map.mpr lawful.ordered).imp
  intro first second less
  exact Nat.ne_of_lt less

theorem count_flatMap_tokens {rows : List (Nat × Row)} (distinct : (rows.map Prod.fst).Nodup)
    {word : Nat} {row : Row} (member : (word, row) ∈ rows) (holds : Token → Bool)
    (own : ∀ token, holds token = true → token.word = word) :
    (rows.flatMap fun row => row.2.tokens row.1).countP holds = (row.tokens word).countP holds := by
  induction rows with
  | nil => cases member
  | cons first rows ih =>
      rw [List.map_cons, List.nodup_cons] at distinct
      rw [List.flatMap_cons, List.countP_append]
      -- Rows before and after the one of the word have tokens of other words.
      rcases List.mem_cons.mp member with rfl | later
      · have rest : (rows.flatMap fun row => row.2.tokens row.1).countP holds = 0 := by
          rw [List.countP_eq_zero]
          intro token inside holdsToken
          obtain ⟨other, found, copy⟩ := List.mem_flatMap.mp inside
          have same := (Row.mem_tokens copy).1
          rw [own token holdsToken] at same
          exact distinct.1 (List.mem_map.mpr ⟨other, found, same.symm⟩)
        rw [rest, Nat.add_zero]
      · have front : (first.2.tokens first.1).countP holds = 0 := by
          rw [List.countP_eq_zero]
          intro token inside holdsToken
          have same := (Row.mem_tokens inside).1
          rw [own token holdsToken] at same
          exact distinct.1 (List.mem_map.mpr ⟨_, later, same⟩)
        rw [front, Nat.zero_add, ih distinct.2 later]

theorem Fits.rows_counts (lawful : vocab.Lawful) (fits : Fits vocab store) {word : Nat} {row : Row}
    (member : (word, row) ∈ store.rows) :
    row.Sound ∧ ∀ topic, row.get topic = store.count word topic := by
  obtain ⟨id, slice, here, inside, sound, counts⟩ := fits.mem_rows member
  exact ⟨sound, fun topic => (counts topic).trans (fits.count_eq lawful here inside topic).symm⟩

theorem Fits.exists_row (lawful : vocab.Lawful) (fits : Fits vocab store) {word : Nat}
    (known : ∃ entry ∈ vocab.words, entry.word = word) :
    ∃ row, (word, row) ∈ store.rows ∧ row.Sound ∧
      ∀ topic, row.get topic = store.count word topic := by
  obtain ⟨entry, member, rfl⟩ := known
  have named : entry.word ∈ store.rows.map Prod.fst := by
    rw [fits.rows_words lawful]
    exact List.mem_map_of_mem (Array.mem_toList_iff.mpr member)
  obtain ⟨⟨word, row⟩, found, same⟩ := List.mem_map.mp named
  obtain rfl : word = entry.word := same
  exact ⟨row, found, fits.rows_counts lawful found⟩

theorem Fits.count_tokens (lawful : vocab.Lawful) (fits : Fits vocab store) (word topic : Nat) :
    store.tokens.count ⟨word, topic⟩ = (store.count word topic).toNat := by
  by_cases known : ∃ entry ∈ vocab.words, entry.word = word
  · obtain ⟨row, found, sound, counts⟩ := fits.exists_row lawful known
    have only := count_flatMap_tokens (fits.rows_nodup lawful) found (· == (⟨word, topic⟩ : Token))
      (fun token same => by rw [LawfulBEq.eq_of_beq same])
    rw [← counts, ← Row.count_tokens sound word topic]
    exact only
  · have foreign := fits.count_foreign lawful (fun entry member same =>
      known ⟨entry, member, same⟩) topic
    rw [foreign, Int.toNat_zero, List.count_eq_zero]
    intro member
    obtain ⟨⟨other, row⟩, found, copy⟩ := List.mem_flatMap.mp member
    obtain ⟨id, slice, here, inside, _⟩ := fits.mem_rows found
    have same := (Row.mem_tokens copy).1
    dsimp only at same
    rw [← same] at inside
    exact known (fits.exists_entry here inside)

theorem Fits.length_row (lawful : vocab.Lawful) (fits : Fits vocab store) {word : Nat} {row : Row}
    (found : (word, row) ∈ store.rows) :
    (row.tokens word).length = Tokens.ofWord store.tokens word := by
  have only := count_flatMap_tokens (fits.rows_nodup lawful) found (fun token =>
    decide (token.word = word))
    (fun token same => of_decide_eq_true same)
  rw [Tokens.ofWord, Multiset.coe_countP]
  refine Eq.trans ?_ only.symm
  rw [eq_comm, List.countP_eq_length]
  exact fun token inside => decide_eq_true (Row.mem_tokens inside).1

end Rows

end Store

/-- A vocabulary of tokens: their words, with the number of tokens of each. -/
structure Vocabulary.Describes (vocab : Vocabulary) (tokens : Multiset Token) : Prop where
  known : ∀ token ∈ tokens, ∃ entry ∈ vocab.words, entry.word = token.word
  frequencies : ∀ entry ∈ vocab.words, Tokens.ofWord tokens entry.word = entry.frequency

theorem Vocabulary.Describes.congr {vocab : Vocabulary} {tokens others : Multiset Token}
    (described : vocab.Describes tokens) (same : others.map Token.word = tokens.map Token.word) :
    vocab.Describes others := by
  constructor
  · intro token member
    have word : token.word ∈ tokens.map Token.word :=
      same ▸ Multiset.mem_map_of_mem Token.word member
    obtain ⟨other, inside, own⟩ := Multiset.mem_map.mp word
    rw [← own]
    exact described.known other inside
  · intro entry member
    have counts := congrArg (Multiset.count entry.word) same
    rw [← described.frequencies entry member]
    simpa only [Multiset.count_map, Tokens.ofWord, Multiset.countP_eq_card_filter,
      eq_comm] using counts

/-- Frequencies fit 32 bits, and a table has a slot for each token of its word. -/
def Vocabulary.Spacious (vocab : Vocabulary) : Prop :=
  ∀ entry ∈ vocab.words, entry.frequency < 2147483648 ∧
    ∀ capacity, entry.kind = .sparse capacity → entry.frequency ≤ capacity

theorem Vocabulary.spacious_of_small {terms : List (Nat × Nat)} {numTopics loadFactor : Nat}
    {vocab : Vocabulary} (made : ofFrequencies terms numTopics loadFactor = .ok vocab)
    (limits : Cells) (small : ∀ entry ∈ vocab.words, entry.frequency ≤ 2147483647) :
    (vocab.slice limits).Spacious := by
  intro entry (member : entry ∈ vocab.words)
  refine ⟨Nat.lt_succ_of_le (small entry member), ?_⟩
  intro capacity sparse
  obtain ⟨entries, laidOut, rfl⟩ := ofFrequencies_eq_ok made
  have laid := laidOut.laid entry (List.mem_toArray.mp member)
  have positive : 0 < loadFactor := by
    by_contra none
    rw [layOut?, RowKind.forFrequency?, if_pos (Nat.eq_zero_of_not_pos none)] at laid
    cases laid
  exact (Nat.le_mul_of_pos_left entry.frequency positive).trans
    ((layOut?_kind laid).2 capacity sparse)

theorem Vocabulary.frequency_lt_of_frequencies {terms : List (Nat × Nat)}
    {numTopics loadFactor : Nat} {vocab : Vocabulary}
    (made : ofFrequencies terms numTopics loadFactor = .ok vocab) (limits : Cells)
    (room : ∀ entry ∈ vocab.words, ∀ capacity, entry.kind = .sparse capacity →
      2 * entry.frequency ≤ capacity) :
    ∀ entry ∈ (vocab.slice limits).words, ∀ capacity, entry.kind = .sparse capacity →
      entry.frequency < capacity := by
  intro entry (member : entry ∈ vocab.words) capacity sparse
  have positive : 0 < entry.frequency := by
    obtain ⟨entries, laidOut, rfl⟩ := ofFrequencies_eq_ok made
    exact (laidOut.given entry (Array.mem_toList_iff.mpr member)).2
  have := room entry member capacity sparse
  omega

theorem Vocabulary.spacious_of_frequencies {terms : List (Nat × Nat)} {numTopics loadFactor : Nat}
    {vocab : Vocabulary} (made : ofFrequencies terms numTopics loadFactor = .ok vocab)
    (limits : Cells) (small : ∀ entry ∈ vocab.words, entry.frequency ≤ 2147483647)
    (room : ∀ entry ∈ vocab.words, ∀ capacity, entry.kind = .sparse capacity →
      2 * entry.frequency ≤ capacity) :
    (vocab.slice limits).Spacious := by
  exact fun entry (member : entry ∈ vocab.words) => ⟨Nat.lt_succ_of_le (small entry member),
    fun capacity sparse =>
    (frequency_lt_of_frequencies made limits room entry member capacity sparse).le⟩

namespace Store

variable {vocab : Vocabulary} {store : Store} {tokens : Multiset Token}

structure Tallies (vocab : Vocabulary) (store : Store) (tokens : Multiset Token) : Prop where
  fits : Fits vocab store
  counted : ∀ (id : Nat) (slice : Slice), store.slices[id]? = some slice →
    Counted slice store.summary vocab.frequency tokens

theorem ofVocabulary_shape (lawful : vocab.Lawful) (entry : SliceMeta) :
    (Slice.ofVocabulary vocab entry).numTopics = vocab.numTopics ∧
      (Slice.ofVocabulary vocab entry).arena.kinds =
        ((vocab.sliceWords entry).map WordMeta.kind).toArray := by
  obtain ⟨_, topics, kinds, _⟩ := Arena.ofKinds_spec vocab.numTopics _ (kinds_legal lawful entry)
  exact ⟨topics, kinds⟩

theorem Fits.exists_kind (lawful : vocab.Lawful) (fits : Fits vocab store) {id : Nat}
    {slice : Slice} (here : store.slices[id]? = some slice) {index word : Nat} {kind : RowKind}
    (named : slice.words[index]? = some word) (laid : slice.arena.kinds[index]? = some kind) :
    ∃ entry ∈ vocab.words, entry.kind = kind ∧ entry.frequency = vocab.frequency word := by
  obtain ⟨run, _, _, shape⟩ := fits.entry here
  rw [shape.words, Slice.ofVocabulary, List.getElem?_toArray, List.getElem?_map,
    Option.map_eq_some_iff] at named
  rw [shape.kinds, (ofVocabulary_shape lawful run).2, List.getElem?_toArray, List.getElem?_map,
    Option.map_eq_some_iff] at laid
  obtain ⟨entry, place, rfl⟩ := named
  obtain ⟨other, place', same⟩ := laid
  rw [place] at place'
  obtain rfl := Option.some.inj place'
  obtain ⟨position, _, _, there⟩ := Vocabulary.mem_sliceWords.mp (List.mem_of_getElem? place)
  have inside := Array.mem_of_getElem? there
  exact ⟨entry, inside, same, (Vocabulary.frequency_of_mem lawful.ordered inside).symm⟩

theorem Fits.exceeds (lawful : vocab.Lawful) (fits : Fits vocab store)
    (room : ∀ entry ∈ vocab.words, ∀ capacity, entry.kind = .sparse capacity →
      entry.frequency < capacity) {id : Nat}
    {slice : Slice} (here : store.slices[id]? = some slice) (word : Nat) :
    slice.Exceeds word (vocab.frequency word) := by
  intro index capacity named sparse
  obtain ⟨entry, inside, kind, frequency⟩ := fits.exists_kind lawful here named sparse
  exact frequency ▸ room entry inside capacity kind

theorem Fits.roomy (lawful : vocab.Lawful) (spacious : vocab.Spacious)
    (fits : Fits vocab store) {id : Nat} {slice : Slice} (here : store.slices[id]? = some slice) :
    slice.Roomy vocab.frequency := by
  constructor
  · intro word member
    obtain ⟨entry, inside, rfl⟩ := fits.exists_entry here member
    rw [Vocabulary.frequency_of_mem lawful.ordered inside]
    exact (spacious entry inside).1
  · intro index word capacity named sparse
    obtain ⟨entry, inside, kind, frequency⟩ := fits.exists_kind lawful here named sparse
    exact frequency ▸ (spacious entry inside).2 capacity kind

theorem Fits.slice_numTopics (lawful : vocab.Lawful) (fits : Fits vocab store) {id : Nat}
    {slice : Slice} (here : store.slices[id]? = some slice) :
    slice.numTopics = store.summary.numTopics := by
  obtain ⟨run, _, _, shape⟩ := fits.entry here
  rw [shape.numTopics, (ofVocabulary_shape lawful run).1, fits.numTopics]

theorem Fits.tallies_of_check (lawful : vocab.Lawful) (spacious : vocab.Spacious)
    (fits : Fits vocab store) (accepted : check vocab store = .ok ()) :
    Tallies vocab store store.tokens ∧ vocab.Describes store.tokens := by
  obtain ⟨whole, totals⟩ := (check_eq_ok vocab store).mp accepted
  have frequencies : ∀ entry ∈ vocab.words, Tokens.ofWord store.tokens entry.word =
      entry.frequency := by
    intro entry member
    obtain ⟨row, found, _⟩ := fits.exists_row lawful ⟨entry, member, rfl⟩
    rw [← fits.length_row lawful found, (whole _ found).2,
      Vocabulary.frequency_of_mem lawful.ordered member]
  have inRow : ∀ token ∈ store.tokens, token.topic < store.summary.numTopics ∧
      ∃ entry ∈ vocab.words, entry.word = token.word := by
    intro token member
    obtain ⟨⟨word, row⟩, found, copy⟩ := List.mem_flatMap.mp member
    obtain ⟨same, count, pair⟩ := Row.mem_tokens copy
    obtain ⟨id, slice, here, inside, _⟩ := fits.mem_rows found
    refine ⟨((whole _ found).1 _ pair).2, ?_⟩
    rw [same]
    exact fits.exists_entry here inside
  refine ⟨⟨fits, ?_⟩, ⟨fun token member => (inRow token member).2, frequencies⟩⟩
  intro id slice here
  obtain ⟨run, _, valid, shape⟩ := fits.entry here
  refine ⟨⟨valid, fits.roomy lawful spacious here, ?_, ?_, ?_⟩, ⟨totals⟩, fun token member =>
    (inRow token member).1, fits.slice_numTopics lawful here⟩
  · intro word member topic
    obtain ⟨row, found, sound, counts⟩ := fits.exists_row lawful (fits.exists_entry here member)
    -- The tokens of a row are its counts only as far as
    -- these are not negative, which the check has found.
    have nonneg : 0 ≤ store.count word topic := by
      rw [← counts]
      by_cases zero : row.get topic = 0
      · rw [zero]
      · exact ((whole _ found).1 _ ((Row.mem_pairs sound topic _).mpr ⟨zero, rfl⟩)).1
    rw [Multiset.coe_count, fits.count_tokens lawful, Int.toNat_of_nonneg nonneg,
      fits.count_eq lawful here member]
  · intro word member
    obtain ⟨entry, inside, rfl⟩ := fits.exists_entry here member
    rw [frequencies entry inside, Vocabulary.frequency_of_mem lawful.ordered inside]
  · intro token member _
    rw [fits.slice_numTopics lawful here]
    exact (inRow token member).1

theorem Tallies.count_eq (lawful : vocab.Lawful) (tallies : Tallies vocab store tokens)
    (every : ∀ token ∈ tokens, ∃ entry ∈ vocab.words, entry.word = token.word) (word topic : Nat) :
    store.count word topic = tokens.count ⟨word, topic⟩ := by
  by_cases known : ∃ entry ∈ vocab.words, entry.word = word
  · obtain ⟨entry, inside, rfl⟩ := known
    obtain ⟨id, slice, here, member⟩ := tallies.fits.exists_slice lawful inside
    rw [tallies.fits.count_eq lawful here member]
    exact (tallies.counted id slice here).rows.counts _ member topic
  · rw [tallies.fits.count_foreign lawful (fun entry member same =>
      known ⟨entry, member, same⟩), eq_comm, Int.natCast_eq_zero, Multiset.count_eq_zero]
    exact fun member => known (every _ member)

theorem Tallies.check (lawful : vocab.Lawful) (tallies : Tallies vocab store tokens)
    (described : vocab.Describes tokens)
    (topics : ∀ token ∈ tokens, token.topic < store.summary.numTopics)
    (totals : store.summary.Tallies tokens) :
    check vocab store = .ok () := by
  have same : (store.tokens : Multiset Token) = tokens := by
    ext token
    rw [Multiset.coe_count, tallies.fits.count_tokens lawful token.word token.topic,
      tallies.count_eq lawful described.known]
    rfl
  rw [check_eq_ok]
  constructor
  · rintro ⟨word, row⟩ found
    obtain ⟨id, slice, here, inside, sound, counts⟩ := tallies.fits.mem_rows found
    obtain ⟨entry, member, rfl⟩ := tallies.fits.exists_entry here inside
    refine ⟨?_, ?_⟩
    · rintro ⟨topic, count⟩ pair
      obtain ⟨nonzero, own⟩ := (Row.mem_pairs sound topic count).mp pair
      rw [counts, (tallies.counted id slice here).rows.counts _ inside] at own
      refine ⟨own ▸ Int.natCast_nonneg _, ?_⟩
      apply topics ⟨entry.word, topic⟩
      rw [← Multiset.count_ne_zero]
      intro zero
      rw [zero] at own
      exact nonzero own.symm
    · dsimp only
      rw [tallies.fits.length_row lawful found, same, described.frequencies entry member,
        Vocabulary.frequency_of_mem lawful.ordered member]
  · intro topic below
    rw [same]
    exact totals.counts topic below

end Store

section Rows

variable {slice : Slice} {summary : Summary} {limit : Nat → Nat} {tokens : Multiset Token}

theorem Counted.rows_topics (counted : Counted slice summary limit tokens) {row : Nat × Row}
    (member : row ∈ slice.rows) {pair : Nat × Int} (inside : pair ∈ row.2.pairs) :
    0 ≤ pair.2 ∧ pair.1 < summary.numTopics := by
  obtain ⟨word, row⟩ := row
  obtain ⟨topic, count⟩ := pair
  obtain ⟨own, sound, counts⟩ := Store.mem_slice_rows counted.rows.valid member
  obtain ⟨nonzero, same⟩ := (Row.mem_pairs sound topic count).mp inside
  rw [counts, counted.rows.counts word own] at same
  refine ⟨same ▸ Int.natCast_nonneg _, ?_⟩
  apply counted.topics ⟨word, topic⟩
  rw [← Multiset.count_ne_zero]
  intro zero
  rw [zero] at same
  exact nonzero same.symm

theorem Counted.length_pairs_le (counted : Counted slice summary limit tokens) {row : Nat × Row}
    (member : row ∈ slice.rows) :
    row.2.pairs.length ≤ summary.numTopics := by
  obtain ⟨_, sound, _⟩ := Store.mem_slice_rows counted.rows.valid member
  rw [← Finset.card_range summary.numTopics]
  apply Row.length_pairs_le_card sound
  intro topic present
  rw [Finset.mem_range]
  exact (counted.rows_topics member ((Row.mem_pairs sound topic _).mpr ⟨present, rfl⟩)).2

end Rows

end LatentTopics
