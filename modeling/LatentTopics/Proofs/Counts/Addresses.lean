import Mathlib
import LatentTopics.Alias.Slice
import LatentTopics.Proofs.Counts.Documents
import LatentTopics.Proofs.Vocabulary.Seats

/-! Addresses of words. The vocabulary, the store and the word proposals of
a slice look a word up each in its own way: by the index of the word, among
the last words of the slices, among the words of one slice. All of them lead
to one row, the same for each, and a word that does not occur has none. -/
namespace LatentTopics

namespace AliasSlice

theorem appendTables_dense (summary : Summary) (beta betaSum : Float) (tables : List (Bool × Row))
    (rows : Array AliasRow) (buckets : Array Alias.Bucket) (topics : Array Nat) :
    (appendTables summary beta betaSum tables rows buckets topics).1.toList.map AliasRow.dense =
      rows.toList.map AliasRow.dense ++ tables.map Prod.fst := by
  induction tables generalizing rows buckets topics with
  | nil => rw [appendTables, List.map_nil, List.append_nil]
  | cons table tables ih =>
      obtain ⟨dense, row⟩ := table
      rw [appendTables, ih, Array.toList_push, List.map_append, List.map_cons, List.append_assoc]
      rfl

theorem build_dense (vocab : Vocabulary) (run : SliceMeta) {slice : Slice}
    (rows : slice.rows.length = (vocab.sliceWords run).length) (summary : Summary)
    (beta betaSum : Float) :
    (build vocab run slice summary beta betaSum).rows.toList.map AliasRow.dense =
      (vocab.sliceWords run).map WordMeta.aliasDense := by
  have dense := appendTables_dense summary beta betaSum
    (((vocab.sliceWords run).map WordMeta.aliasDense).zip (slice.rows.map Prod.snd)) #[] #[] #[]
  rw [List.map_fst_zip (by rw [List.length_map, List.length_map, rows])] at dense
  exact dense

end AliasSlice

structure Finds (vocab : Vocabulary) (run : SliceMeta) (slice : Slice) (proposals : AliasSlice)
    (word index : Nat) (entry : WordMeta) : Prop where
  known : vocab.entryOf? word = some entry
  indexIn : vocab.indexIn? run word = some index
  wordIn : vocab.wordIn? run index = some word
  bounds : run.firstWord ≤ word ∧ word ≤ run.lastWord
  counts : slice.index? word = some index
  kind : slice.arena.kinds[index]? = some entry.kind
  proposed : Search.find? proposals.words word = some index
  dense : (proposals.rows[index]?).map AliasRow.dense = some entry.aliasDense

structure Misses (vocab : Vocabulary) (run : SliceMeta) (slice : Slice) (proposals : AliasSlice)
    (word : Nat) : Prop where
  indexIn : vocab.indexIn? run word = none
  counts : slice.index? word = none
  proposed : Search.find? proposals.words word = none

/-- A word with its row at an index of slice `id`, and nowhere else. -/
structure Addressed (vocab : Vocabulary) (store : Store) (beta betaSum : Float)
    (word id index : Nat) : Prop where
  sliceOf : store.sliceOf? word = some id
  found : ∃ run slice entry, vocab.slices[id]? = some run ∧ store.slices[id]? = some slice ∧
    Finds vocab run slice (AliasSlice.build vocab run slice store.summary beta betaSum)
      word index entry
  alone : ∀ other run slice, other ≠ id → vocab.slices[other]? = some run →
    store.slices[other]? = some slice →
    Misses vocab run slice (AliasSlice.build vocab run slice store.summary beta betaSum) word

structure Unaddressed (vocab : Vocabulary) (store : Store) (beta betaSum : Float)
    (word : Nat) : Prop where
  unknown : vocab.entryOf? word = none
  sliceOf : store.sliceOf? word = none
  nowhere : ∀ (id : Nat) run slice, vocab.slices[id]? = some run → store.slices[id]? = some slice →
    Misses vocab run slice (AliasSlice.build vocab run slice store.summary beta betaSum) word

namespace Store

variable {vocab : Vocabulary} {store : Store} {id index word : Nat} {run : SliceMeta}
  {slice : Slice} {entry : WordMeta}

theorem getElem?_words (shape : (Slice.ofVocabulary vocab run).SameShape slice) (index word : Nat) :
    slice.words[index]? = some word ↔ ∃ entry, vocab.Seats run index entry ∧ entry.word = word := by
  rw [shape.words, Slice.ofVocabulary, List.getElem?_toArray, List.getElem?_map,
    Option.map_eq_some_iff]
  simp only [Vocabulary.getElem?_sliceWords]

theorem getElem?_kinds (lawful : vocab.Lawful)
    (shape : (Slice.ofVocabulary vocab run).SameShape slice) (seats : vocab.Seats run index entry) :
    slice.arena.kinds[index]? = some entry.kind := by
  obtain ⟨_, _, kinds, _⟩ := Arena.ofKinds_spec vocab.numTopics _ (kinds_legal lawful run)
  rw [shape.kinds, Slice.ofVocabulary]
  dsimp only
  rw [kinds, List.getElem?_toArray, List.getElem?_map,
    (vocab.getElem?_sliceWords run index entry).mpr seats, Option.map_some]

theorem finds_of_seats (lawful : vocab.Lawful) (there : vocab.slices[id]? = some run)
    (valid : slice.Valid) (shape : (Slice.ofVocabulary vocab run).SameShape slice)
    (seats : vocab.Seats run index entry) (summary : Summary) (beta betaSum : Float) :
    Finds vocab run slice (AliasSlice.build vocab run slice summary beta betaSum)
        entry.word index entry := by
  have here : slice.words[index]? = some entry.word :=
    (getElem?_words shape index entry.word).mpr ⟨entry, seats, rfl⟩
  have length : slice.rows.length = (vocab.sliceWords run).length := by
    rw [← List.length_map Prod.fst, slice_rows_words valid, shape.words, Slice.ofVocabulary,
      Array.length_toList, List.size_toArray, List.length_map]
  constructor
  · exact Vocabulary.entryOf?_of_mem lawful.ordered seats.mem
  · exact (Vocabulary.indexIn?_eq_some lawful.ordered run entry.word index).mpr ⟨entry, seats, rfl⟩
  · exact seats.wordIn?
  · exact lawful.sliced.word_mem_bounds lawful.ordered there seats
  · exact (valid.index?_eq_some entry.word index).mpr here
  · exact getElem?_kinds lawful shape seats
  · exact (valid.increasing.find?_eq_some entry.word index).mpr here
  · rw [← Array.getElem?_toList, ← List.getElem?_map, AliasSlice.build_dense vocab run length,
      List.getElem?_map, (vocab.getElem?_sliceWords run index entry).mpr seats, Option.map_some]

theorem misses_of_foreign (lawful : vocab.Lawful) (valid : slice.Valid)
    (shape : (Slice.ofVocabulary vocab run).SameShape slice)
    (foreign : ∀ index entry, vocab.Seats run index entry → entry.word ≠ word) (summary : Summary)
    (beta betaSum : Float) :
    Misses vocab run slice (AliasSlice.build vocab run slice summary beta betaSum) word := by
  have missing : word ∉ slice.words := by
    intro member
    obtain ⟨index, here⟩ := Array.getElem?_of_mem member
    obtain ⟨entry, seats, same⟩ := (getElem?_words shape index word).mp here
    exact foreign index entry seats same
  exact ⟨(Vocabulary.indexIn?_eq_none lawful.ordered run word).mpr foreign,
    (valid.index?_eq_none word).mpr missing, (valid.increasing.find?_eq_none word).mpr missing⟩

theorem Fits.addressed (lawful : vocab.Lawful) (fits : Fits vocab store)
    (there : vocab.slices[id]? = some run) (seats : vocab.Seats run index entry)
    (beta betaSum : Float) : Addressed vocab store beta betaSum entry.word id index := by
  obtain ⟨slice, here, valid, shape⟩ := fits.slice there
  have place := (getElem?_words shape index entry.word).mpr ⟨entry, seats, rfl⟩
  refine ⟨?_, ⟨run, slice, entry, there, here,
    finds_of_seats lawful there valid shape seats _ beta betaSum⟩, ?_⟩
  · exact (fits.sliceOf?_eq_some lawful entry.word id).mpr ⟨slice, here,
      Array.mem_of_getElem? place⟩
  · intro other run' slice' different there' here'
    obtain ⟨valid', shape'⟩ := fits.shapes other slice' run' here' there'
    apply misses_of_foreign lawful valid' shape'
    intro place' entry' sits same
    exact different (lawful.sliced.seats_unique lawful.ordered there' sits there seats same).1

theorem Fits.unaddressed (lawful : vocab.Lawful) (fits : Fits vocab store)
    (unknown : ∀ entry ∈ vocab.words, entry.word ≠ word) (beta betaSum : Float) :
    Unaddressed vocab store beta betaSum word := by
  refine ⟨?_, ?_, ?_⟩
  · rw [Option.eq_none_iff_forall_ne_some]
    intro entry found
    obtain ⟨index, listed, here⟩ := Option.bind_eq_some_iff.mp found
    obtain ⟨other, there, same⟩ := (Vocabulary.index?_eq_some lawful.ordered word index).mp listed
    exact unknown other (Array.mem_of_getElem? there) same
  · rw [Option.eq_none_iff_forall_ne_some]
    intro id found
    obtain ⟨slice, here, member⟩ := (fits.sliceOf?_eq_some lawful word id).mp found
    obtain ⟨entry, listed, same⟩ := fits.exists_entry here member
    exact unknown entry listed same
  · intro id run slice there here
    obtain ⟨valid, shape⟩ := fits.shapes id slice run here there
    exact misses_of_foreign lawful valid shape (fun index entry seats => unknown entry seats.mem)
      _ beta betaSum

end Store

/-- All look-ups of a word agree, on its one address or on
there being none, and every row is the address of one word. -/
theorem addresses_agree (docs : List Document) (numTopics : Nat) {loadFactor : Nat}
    (load : loadFactor ≠ 0) :
    ∃ vocab, Vocabulary.ofDocuments docs numTopics loadFactor = .ok vocab ∧
      ∀ limits store, Store.Reachable (vocab.slice limits) store → ∀ beta betaSum : Float,
        (∀ word, (∃ doc ∈ docs, word ∈ doc.words) →
          ∃ id index, Addressed (vocab.slice limits) store beta betaSum word id index) ∧
        (∀ word, (¬ ∃ doc ∈ docs, word ∈ doc.words) →
        Unaddressed (vocab.slice limits) store beta betaSum word) ∧
        ∀ (id index : Nat) (run : SliceMeta), (vocab.slice limits).slices[id]? = some run →
        index < run.size →
          ∃ word, Addressed (vocab.slice limits) store beta betaSum word id index ∧
            ∀ other, (vocab.slice limits).indexIn? run other = some index → other = word := by
  obtain ⟨vocab, made⟩ := Vocabulary.exists_ofFrequencies (Vocabulary.frequencies docs)
    numTopics load
  refine ⟨vocab, made, ?_⟩
  intro limits store reached beta betaSum
  have lawful := Vocabulary.lawful_of_frequencies made limits
  have fits := reached.fits lawful
  have occurs := Vocabulary.mem_ofDocuments made limits
  refine ⟨?_, ?_, ?_⟩
  · intro word occurring
    obtain ⟨entry, member, rfl⟩ := (occurs word).mpr occurring
    obtain ⟨id, run, index, there, seats⟩ := lawful.sliced.exists_seats member
    exact ⟨id, index, fits.addressed lawful there seats beta betaSum⟩
  · intro word absent
    apply fits.unaddressed lawful
    intro entry member same
    exact absent ((occurs word).mp ⟨entry, member, same⟩)
  · intro id index run there inside
    obtain ⟨entry, seats⟩ := lawful.sliced.seats_of_lt there inside
    refine ⟨entry.word, fits.addressed lawful there seats beta betaSum, ?_⟩
    intro other found
    obtain ⟨entry', sits, same⟩ :=
      (Vocabulary.indexIn?_eq_some lawful.ordered run other index).mp found
    have equal : entry = entry' := Option.some.inj (seats.entry.symm.trans sits.entry)
    rw [← same, equal]

/-- Words with gaps between them, the last one in a slice of its own. -/
theorem addresses_agree_gaps :
    let docs : List Document := [⟨#[⟨3, 0⟩, ⟨9, 1⟩], 0⟩, ⟨#[⟨3, 1⟩, ⟨20, 0⟩], 0⟩]
    let words : Array WordMeta :=
      #[⟨3, 2, .sparse 4, false⟩, ⟨9, 1, .sparse 2, false⟩, ⟨20, 1, .sparse 2, false⟩]
    let vocab : Vocabulary := ⟨12, words, #[⟨0, 3, 9, 0, 2⟩, ⟨1, 20, 20, 2, 3⟩]⟩
    (Vocabulary.ofDocuments docs 12 2).map (Vocabulary.slice ⟨12, 0⟩) = .ok vocab ∧ 2 ≠ 0 ∧
      Store.Reachable vocab (Store.ofVocabulary vocab) ∧
      (∃ id index, Addressed vocab (Store.ofVocabulary vocab) 0.5 1.5 9 id index) ∧
      Unaddressed vocab (Store.ofVocabulary vocab) 0.5 1.5 5 ∧
      ∃ word, Addressed vocab (Store.ofVocabulary vocab) 0.5 1.5 word 1 0 := by
  intro docs words vocab
  have sliced : (Vocabulary.ofDocuments docs 12 2).map (Vocabulary.slice ⟨12, 0⟩) = .ok vocab := by
    cbv
  obtain ⟨found, made, agree⟩ := addresses_agree docs 12 (show 2 ≠ 0 by decide)
  have cut : found.slice ⟨12, 0⟩ = vocab := by
    rw [made] at sliced
    exact Except.ok.inj sliced
  have started : Store.Reachable vocab (Store.ofVocabulary vocab) := .fresh
  obtain ⟨occurring, absent, reached⟩ :=
    agree ⟨12, 0⟩ (Store.ofVocabulary vocab) (cut.symm ▸ started) 0.5 1.5
  rw [cut] at occurring absent reached
  have first := occurring 9 (by simp [docs, Document.words])
  have gap := absent 5 (by simp [docs, Document.words])
  obtain ⟨word, addressed, _⟩ := reached 1 0 ⟨1, 20, 20, 2, 3⟩ rfl (by decide)
  exact ⟨sliced, by decide, started, first, gap, word, addressed⟩

end LatentTopics
