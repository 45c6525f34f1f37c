import Mathlib
import LatentTopics.Proofs.Alias.Proposals
import LatentTopics.Proofs.Counts.Checked
import LatentTopics.Proofs.Updates

/-! Slices that count nothing but topics. Their counts need not be
those of any tokens: additions keep this much whether they succeed or
not, and proposals that are built from such a slice are topics. -/
namespace LatentTopics

/-- A slice as it was made for the vocabulary, with counts of these topics only. -/
structure Slice.Confined (numTopics : Nat) (slice : Slice) : Prop where
  valid : slice.Valid
  topics : ∀ word topic, slice.count word topic ≠ 0 → topic < numTopics

variable {vocab : Vocabulary} {run : SliceMeta} {slice : Slice} {summary : Summary}
  {numTopics : Nat}

theorem Slice.Valid.length_rows (valid : slice.Valid)
    (shape : (Slice.ofVocabulary vocab run).SameShape slice) :
    slice.rows.length = (vocab.sliceWords run).length := by
  rw [← List.length_map Prod.fst, Store.slice_rows_words valid, shape.words, Slice.ofVocabulary,
    Array.length_toList, List.size_toArray, List.length_map]

namespace Slice.Confined

theorem pairs_lt (confined : slice.Confined numTopics) {row : Nat × Row} (member : row ∈ slice.rows)
    {pair : Nat × Int} (inside : pair ∈ row.2.pairs) : pair.1 < numTopics := by
  obtain ⟨word, row⟩ := row
  obtain ⟨topic, count⟩ := pair
  obtain ⟨_, sound, counts⟩ := Store.mem_slice_rows confined.valid member
  obtain ⟨nonzero, same⟩ := (Row.mem_pairs sound topic count).mp inside
  apply confined.topics word
  rw [← counts, same]
  exact nonzero

theorem build_legal (confined : slice.Confined numTopics)
    (shape : (Slice.ofVocabulary vocab run).SameShape slice) (size : summary.numTopics = numTopics)
    (beta betaSum : Float) :
    (AliasSlice.build vocab run slice summary beta betaSum).Legal numTopics := by
  have words : slice.words.size = (vocab.sliceWords run).length := by
    rw [shape.words, Slice.ofVocabulary, List.size_toArray, List.length_map]
  exact AliasSlice.build_legal vocab size words
    ((confined.valid.length_rows shape).trans words.symm)
    (fun _ member _ inside => confined.pairs_lt member inside) beta betaSum

theorem left_add (confined : slice.Confined numTopics) (word : Nat) {topic : Nat}
    (below : topic < numTopics) {delta : Int} (range : Number.Int32Range delta) :
    (Update.left (Slice.add word topic delta) slice).Confined numTopics ∧
      slice.SameShape (Update.left (Slice.add word topic delta) slice) := by
  rcases Slice.add_outcome confined.valid word topic range with ⟨after, added, _,
    assigns⟩ | ⟨fault, refused⟩
  · rw [Update.left_of_ok added]
    refine ⟨⟨assigns.valid, ?_⟩, assigns.shape⟩
    intro other position present
    rw [assigns.counts] at present
    split at present
    · next own => exact own.2 ▸ below
    · exact confined.topics other position present
  · rw [Update.left_of_error refused]
    exact ⟨confined, Slice.SameShape.refl slice⟩

end Slice.Confined

theorem Slice.ofVocabulary_confined (lawful : vocab.Lawful) (run : SliceMeta) (numTopics : Nat) :
    (Slice.ofVocabulary vocab run).Confined numTopics :=
  ⟨Store.ofVocabulary_valid lawful run, fun word topic present =>
    absurd (Store.ofVocabulary_count lawful run word topic) present⟩

namespace Store

structure Confined (vocab : Vocabulary) (store : Store) : Prop where
  fits : store.Fits vocab
  slices : ∀ slice ∈ store.slices, slice.Confined vocab.numTopics

variable {store : Store}

theorem ofVocabulary_confined (lawful : vocab.Lawful) : (ofVocabulary vocab).Confined vocab := by
  refine ⟨ofVocabulary_fits lawful, ?_⟩
  intro slice member
  obtain ⟨run, _, rfl⟩ := Array.mem_map.mp member
  exact Slice.ofVocabulary_confined lawful run vocab.numTopics

theorem Confined.set (confined : store.Confined vocab) {id : Nat}
    (here : store.slices[id]? = some slice) {next : Slice} (after : next.Confined vocab.numTopics)
    (shape : slice.SameShape next) (size : summary.numTopics = vocab.numTopics) :
    Confined vocab ⟨store.slices.setIfInBounds id next, summary⟩ := by
  refine ⟨confined.fits.set here after.valid shape (size.trans confined.fits.numTopics.symm), ?_⟩
  intro other member
  rcases Array.mem_or_eq_of_mem_setIfInBounds member with old | rfl
  · exact confined.slices other old
  · exact after

theorem Confined.count_topic (lawful : vocab.Lawful) (confined : store.Confined vocab)
    {word topic : Nat} (present : store.count word topic ≠ 0) : topic < vocab.numTopics := by
  obtain ⟨entry, inside, rfl⟩ := confined.fits.known_of_count lawful present
  obtain ⟨id, slice, here, member⟩ := confined.fits.exists_slice lawful inside
  rw [confined.fits.count_eq lawful here member] at present
  exact (confined.slices slice (Array.mem_of_getElem? here)).topics _ _ present

theorem keeps_addToken (numWords : Nat) {token : Token} (below : token.topic < vocab.numTopics) :
    Update.Keeps (Confined vocab) (addToken numWords token) := by
  have rows : ∀ id, Update.Keeps (Confined vocab)
      (updateSlice id (Slice.add token.word token.topic 1)) := by
    intro id store confined
    by_cases inside : id < store.slices.size
    · have here := Array.getElem?_eq_getElem inside
      obtain ⟨after, shape⟩ :=
        (confined.slices _ (Array.getElem_mem inside)).left_add token.word below
        (show Number.Int32Range 1 from ⟨by decide, by decide⟩)
      have set := confined.set here after shape confined.fits.numTopics
      rw [Update.left] at set ⊢
      cases stepped : Slice.add token.word token.topic 1 store.slices[id] <;>
        simpa only [updateSlice, dif_pos inside, Array.swapAt, stepped,
          Arrays.setIfInBounds_set] using set
    · simp only [Update.left, updateSlice, dif_neg inside]
      exact confined
  have totals : Update.Keeps (Confined vocab) (updateSummary (Summary.add token.topic 1)) := by
    rintro store ⟨⟨size, shapes, numTopics⟩, slices⟩
    have kept := left_summary store.summary token.topic 1
    rw [left] at kept
    simp only [Update.left, updateSummary]
    cases stepped : Summary.add token.topic 1 store.summary <;>
      · rw [stepped] at kept
        exact ⟨⟨size, shapes, kept.trans numTopics⟩, slices⟩
  intro store confined
  cases found : store.sliceOf? token.word with
  | none =>
      simp only [Update.left, addToken, found]
      exact confined
  | some id =>
      have both := ((rows id).bind fun _ => totals) store confined
      simp only [Update.left, addToken, found] at both ⊢
      exact both

theorem ofDocuments_confined (lawful : vocab.Lawful) {docs : List Document}
    (topics : ∀ doc ∈ docs, ∀ token ∈ doc.tokens, token.topic < vocab.numTopics)
    (counted : ofDocuments vocab docs = .ok store) : store.Confined vocab := by
  have keeps : ∀ tokens : List Token, (∀ token ∈ tokens, token.topic < vocab.numTopics) →
      Update.Keeps (Confined vocab) (addTokens vocab.words.size tokens) := by
    intro tokens below
    induction tokens with
    | nil => exact fun store confined => confined
    | cons token tokens ih =>
        exact (keeps_addToken _ (below token List.mem_cons_self)).bind fun _ =>
          ih fun later member => below later (List.mem_cons_of_mem _ member)
  have below : ∀ token ∈ docs.flatMap fun doc =>
      doc.tokens.toList, token.topic < vocab.numTopics := by
    intro token member
    obtain ⟨doc, listed, inside⟩ := List.mem_flatMap.mp member
    exact topics doc listed token (Array.mem_toList_iff.mp inside)
  rw [ofDocuments] at counted
  cases added : addTokens vocab.words.size (docs.flatMap fun doc => doc.tokens.toList)
    (ofVocabulary vocab) with
  | ok _ after =>
      rw [added] at counted
      obtain rfl := Except.ok.inj counted
      exact (keeps _ below).of_ok (ofVocabulary_confined lawful) added
  | error fault after =>
      rw [added] at counted
      cases counted

end Store

theorem Vocabulary.ofFrequencies_mixed : ofFrequencies [(3, 8), (9, 1)] 12 2 =
    .ok ⟨12, #[⟨3, 8, .dense, true⟩, ⟨9, 1, .sparse 2, false⟩], #[⟨0, 3, 9, 0, 2⟩]⟩ := by
  cbv

theorem Store.exists_mixed :
    let vocab := Vocabulary.slice ⟨0, 0⟩ ⟨12, #[⟨3, 8, .dense, true⟩, ⟨9, 1, .sparse 2, false⟩],
        #[⟨0, 3, 9, 0, 2⟩]⟩
    let run : SliceMeta := ⟨0, 3, 9, 0, 2⟩
    let slice := Update.left (Slice.add 9 5 1) (Slice.ofVocabulary vocab run)
    vocab.slices[0]? = some run ∧ slice.Confined 12 ∧ slice.count 9 5 = 1 ∧ slice.size = 2 ∧
      ∃ store, Reachable vocab store ∧ store.slices[0]? = some slice := by
  intro vocab run slice
  have lawful := Vocabulary.lawful_of_frequencies Vocabulary.ofFrequencies_mixed ⟨0, 0⟩
  have one : Number.Int32Range 1 := ⟨by decide, by decide⟩
  have confined :=
    ((Slice.ofVocabulary_confined lawful run 12).left_add 9 (show 5 < 12 by decide) one).1
  have started : Reachable vocab (ofVocabulary vocab) := .fresh
  exact ⟨by decide +kernel, confined, by decide +kernel, by decide +kernel, _,
    started.count 0 9 5 one, by decide +kernel⟩

end LatentTopics
