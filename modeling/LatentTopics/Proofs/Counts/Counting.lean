import Mathlib
import LatentTopics.Proofs.Corpus.Tokens
import LatentTopics.Proofs.Counts.Checked

/-! Counting documents. When the vocabulary knows their words, with room for all of their tokens,
counting them token by token succeeds, and the store tallies them. -/
namespace LatentTopics.Store

variable {vocab : Vocabulary} {store : Store} {tokens changed : Multiset Token}

theorem Fits.same_slice (lawful : vocab.Lawful) (fits : Fits vocab store) {first second : Nat}
    {slice other : Slice} (here : store.slices[first]? = some slice)
    (there : store.slices[second]? = some other) {word : Nat} (member : word ∈ slice.words)
    (member' : word ∈ other.words) : first = second := by
  have found := (fits.sliceOf?_eq_some lawful word first).mpr ⟨slice, here, member⟩
  rw [(fits.sliceOf?_eq_some lawful word second).mpr ⟨other, there, member'⟩] at found
  exact (Option.some.inj found).symm

theorem Tallies.set (lawful : vocab.Lawful) (tallies : Tallies vocab store tokens) {id : Nat}
    {slice slice' : Slice} {summary : Summary} (here : store.slices[id]? = some slice)
    (counted : Counted slice' summary vocab.frequency changed) (shape : slice.SameShape slice')
    (size : summary.numTopics = store.summary.numTopics)
    (foreign : ∀ token : Token, token.word ∉ slice.words →
      changed.count token = tokens.count token) :
    Tallies vocab ⟨store.slices.setIfInBounds id slice', summary⟩ changed := by
  refine ⟨tallies.fits.set here counted.rows.valid shape size, ?_⟩
  intro other found there
  dsimp only at there ⊢
  rcases Arrays.getElem?_set_cases (Array.getElem?_eq_some_iff.mp here).1 there with ⟨rfl,
    rfl⟩ | ⟨different, before⟩
  · exact counted
  · -- Another slice has none of the words whose tokens differ.
    have old := tallies.counted other found before
    refine ⟨old.rows.congr ?_, counted.totals, counted.topics, old.numTopics.trans size.symm⟩
    intro token inside
    apply foreign
    exact fun member => different (tallies.fits.same_slice lawful before here inside member)

theorem Tallies.addToken (lawful : vocab.Lawful) (tallies : Tallies vocab store tokens)
    {token : Token} (known : ∃ entry ∈ vocab.words, entry.word = token.word)
    (below : token.topic < vocab.numTopics)
    (within : Tokens.ofWord (token ::ₘ tokens) token.word ≤ vocab.frequency token.word)
    (numWords : Nat) :
    ∃ store', addToken numWords token store = .ok () store' ∧
      Tallies vocab store' (token ::ₘ tokens) := by
  obtain ⟨entry, inside, same⟩ := known
  obtain ⟨id, slice, here, member⟩ := tallies.fits.exists_slice lawful inside
  rw [same] at member
  have counted := tallies.counted id slice here
  have below' : token.topic < store.summary.numTopics := tallies.fits.numTopics ▸ below
  have once : ((token ::ₘ tokens).count ⟨token.word, token.topic⟩ : Int) = tokens.count ⟨token.word,
      token.topic⟩ + 1 := by
    rw [Multiset.count_cons_self]
    rfl
  obtain ⟨slice', added, rows, shape⟩ :=
    counted.rows.add (token ::ₘ tokens) (show (1 : Int) ≠ 0 by decide) member
    (counted.numTopics ▸ below') once
    (fun other different => Multiset.count_cons_of_ne different tokens) within
  have enters : ∀ topic, Tokens.ofTopic (token ::ₘ tokens) topic =
      Tokens.ofTopic tokens topic + if token.topic = topic then 1 else 0 :=
    fun topic => Multiset.countP_cons _ _ _
  obtain ⟨summary', summed, totals, size⟩ := counted.totals.add (token ::ₘ tokens) 1 below'
    (by rw [enters, if_pos rfl]; rfl)
      (fun topic different => by rw [enters, if_neg (Ne.symm different)]; rfl)
  refine ⟨⟨store.slices.setIfInBounds id slice', summary'⟩, ?_,
    tallies.set lawful here ⟨rows, totals, ?_, ?_⟩ shape size ?_⟩
  · have found := (tallies.fits.sliceOf?_eq_some lawful token.word id).mpr ⟨slice, here, member⟩
    simp only [Store.addToken, found, bind, EStateM.bind, updateSlice_ok here added,
      updateSummary, summed]
  · intro other memberOf
    rw [size]
    rcases Multiset.mem_cons.mp memberOf with rfl | old
    · exact below'
    · exact counted.topics other old
  · rw [shape.numTopics, size]
    exact counted.numTopics
  · intro other missing
    apply Multiset.count_cons_of_ne
    rintro rfl
    exact missing member

theorem Tallies.addTokens (lawful : vocab.Lawful) (numWords : Nat) (list : List Token)
    (tallies : Tallies vocab store tokens)
    (known : ∀ token ∈ list, ∃ entry ∈ vocab.words, entry.word = token.word)
    (below : ∀ token ∈ list, token.topic < vocab.numTopics)
    (within : ∀ entry ∈ vocab.words, Tokens.ofWord (list + tokens) entry.word ≤ entry.frequency) :
    ∃ store', addTokens numWords list store = .ok () store' ∧
      Tallies vocab store' (list + tokens) := by
  induction list generalizing store tokens with
  | nil => exact ⟨store, rfl, by rwa [Multiset.coe_nil, zero_add]⟩
  | cons token list ih =>
      -- The tokens that are still to come are counted as if they were there already.
      have moved : ((token :: list : List Token) : Multiset Token) + tokens =
          list + (token ::ₘ tokens) := by
        rw [← Multiset.cons_coe, Multiset.cons_add, Multiset.add_cons]
      rw [moved] at within ⊢
      obtain ⟨entry, inside, same⟩ := known token List.mem_cons_self
      have room : Tokens.ofWord (token ::ₘ tokens) token.word ≤ vocab.frequency token.word := by
        rw [← same, Vocabulary.frequency_of_mem lawful.ordered inside]
        exact (Tokens.ofWord_mono (Multiset.le_add_left _ _) _).trans (within entry inside)
      obtain ⟨next, added, talliesNext⟩ :=
        tallies.addToken lawful ⟨entry, inside, same⟩ (below token List.mem_cons_self) room numWords
      obtain ⟨last, rest, talliesLast⟩ :=
        ih talliesNext (fun other later => known other (List.mem_cons_of_mem _ later))
        (fun other later => below other (List.mem_cons_of_mem _ later)) within
      refine ⟨last, ?_, talliesLast⟩
      simp only [Store.addTokens, bind, EStateM.bind, added]
      exact rest

theorem ofVocabulary_tallies (lawful : vocab.Lawful) (spacious : vocab.Spacious) :
    Tallies vocab (ofVocabulary vocab) 0 := by
  have fits := ofVocabulary_fits lawful
  refine ⟨fits, ?_⟩
  intro id slice here
  obtain ⟨_, _, valid, _⟩ := fits.entry here
  refine ⟨⟨valid, fits.roomy lawful spacious here, ?_, ?_, ?_⟩, ⟨?_⟩, ?_,
    fits.slice_numTopics lawful here⟩
  · intro word member topic
    simp only [ofVocabulary, Array.getElem?_map, Option.map_eq_some_iff] at here
    obtain ⟨entry, _, rfl⟩ := here
    exact ofVocabulary_count lawful entry word topic
  · intro word member
    exact Nat.zero_le _
  · intro token member
    exact absurd member (Multiset.notMem_zero token)
  · intro topic below
    exact Arrays.getD_replicate _ _ topic
  · intro token member
    exact absurd member (Multiset.notMem_zero token)

/-- Documents whose words are known, with room for their tokens, are counted. -/
theorem ofDocuments_ok (lawful : vocab.Lawful) (spacious : vocab.Spacious) (docs : List Document)
    (known : ∀ token ∈ Tokens.ofDocs docs, ∃ entry ∈ vocab.words, entry.word = token.word)
    (below : ∀ token ∈ Tokens.ofDocs docs, token.topic < vocab.numTopics)
    (within : ∀ entry ∈ vocab.words, Tokens.ofWord (Tokens.ofDocs docs) entry.word ≤
      entry.frequency) :
    ∃ store, ofDocuments vocab docs = .ok store ∧ Tallies vocab store (Tokens.ofDocs docs) := by
  obtain ⟨store, counted, tallies⟩ :=
    (ofVocabulary_tallies lawful spacious).addTokens lawful vocab.words.size
    (docs.flatMap fun (doc : Document) => doc.tokens.toList) known below
      (by rw [add_zero]; exact within)
  rw [add_zero] at tallies
  refine ⟨store, ?_, tallies⟩
  simp only [ofDocuments, counted]

theorem Fits.tallies_of_counts (lawful : vocab.Lawful) (spacious : vocab.Spacious)
    (fits : Fits vocab store)
    (counts : ∀ word topic, store.count word topic = tokens.count ⟨word, topic⟩)
    (totals : ∀ topic, store.summary.get topic = Tokens.ofTopic tokens topic)
    (within : ∀ entry ∈ vocab.words, Tokens.ofWord tokens entry.word ≤ entry.frequency) :
    Tallies vocab store tokens ∧ ∀ token ∈ tokens, ∃ entry ∈ vocab.words, entry.word =
        token.word := by
  have below : ∀ token ∈ tokens, token.topic < store.summary.numTopics := by
    intro token member
    by_contra outside
    have some : 0 < Tokens.ofTopic tokens token.topic :=
      Multiset.countP_pos.mpr ⟨token, member, rfl⟩
    have total := totals token.topic
    rw [Summary.get, Array.getD_eq_getD_getElem?, Array.getElem?_eq_none (not_lt.mp outside),
      Option.getD_none] at total
    omega
  constructor
  · refine ⟨fits, ?_⟩
    intro id slice here
    obtain ⟨_, _, valid, _⟩ := fits.entry here
    refine ⟨⟨valid, fits.roomy lawful spacious here, ?_, ?_, ?_⟩,
      ⟨fun topic _ => totals topic⟩, below, fits.slice_numTopics lawful here⟩
    · intro word member topic
      rw [← fits.count_eq lawful here member, counts]
    · intro word member
      obtain ⟨entry, inside, rfl⟩ := fits.exists_entry here member
      rw [Vocabulary.frequency_of_mem lawful.ordered inside]
      exact within entry inside
    · intro token member _
      rw [fits.slice_numTopics lawful here]
      exact below token member
  · intro token member
    apply fits.known_of_count lawful (show store.count token.word token.topic ≠ 0 from ?_)
    rw [counts, Int.natCast_ne_zero, Multiset.count_ne_zero]
    exact member

end LatentTopics.Store
