import Mathlib
import LatentTopics.Engine.Training
import LatentTopics.Proofs.Counts.Counting
import LatentTopics.Proofs.Engine.Passes

/-! Slice after slice. Between two passes the counts of an engine are those of its documents, and
the documents keep the words that they were given. -/
namespace LatentTopics.Engine

structure Laid (numTopics : Nat) (engine : Engine) : Prop where
  lawful : engine.vocab.Lawful
  spacious : engine.vocab.Spacious
  settings : engine.settings.numTopics = numTopics
  vocab : engine.vocab.numTopics = numTopics
  positive : 0 < numTopics
  numVocabs : engine.settings.numVocabs ≠ 0

/-- An engine with `id` slices behind it in an iteration. -/
structure Sound (given : Block) (numTopics id : Nat) (engine : Engine) : Prop where
  laid : engine.Laid numTopics
  workers : 0 < engine.samplers.size
  ready : ∀ sampler ∈ engine.samplers, sampler.Ready numTopics
  words : engine.block.docs.toList.map Document.words = given.docs.toList.map Document.words
  small : Multiset.card (Tokens.ofDocs engine.block.docs.toList) < 2147483648
  described : engine.vocab.Describes (Tokens.ofDocs engine.block.docs.toList)
  topics : ∀ doc ∈ engine.block.docs.toList, ∀ token ∈ doc.tokens, token.topic < numTopics
  tallies : Store.Tallies engine.vocab engine.store (Tokens.ofDocs engine.block.docs.toList)
  totals : engine.store.summary.Tallies (Tokens.ofDocs engine.block.docs.toList)
  paused : ∀ doc ∈ engine.block.docs.toList, doc.Paused engine.vocab id

variable {given : Block} {numTopics id : Nat} {engine before after : Engine} {entry : SliceMeta}
  {slice : Slice}

theorem Sound.total_numTopics (sound : engine.Sound given numTopics id) :
    engine.store.summary.numTopics = numTopics :=
  sound.tallies.fits.numTopics.trans sound.laid.vocab

theorem Sound.size_lt (sound : engine.Sound given numTopics id) {doc : Document}
    (member : doc ∈ engine.block.docs.toList) :
    doc.size < 2147483648 :=
  (Tokens.size_le_card_ofDocs member).trans_lt sound.small

theorem Sound.waits (sound : engine.Sound given numTopics id)
    (here : engine.store.slices[id]? = some slice) (there : engine.vocab.slices[id]? = some entry) :
    ∀ doc ∈ engine.block.docs.toList, doc.Waits slice.words numTopics entry := by
  intro doc member
  apply (sound.paused doc member).waits sound.laid.lawful sound.tallies.fits here there
  · intro token inside
    exact sound.described.known token (Tokens.mem_ofDocs.mpr ⟨doc, member, inside⟩)
  · exact sound.size_lt member
  · exact sound.topics doc member

theorem exists_related {α β : Type} {related : α → β → Prop} {list : List α} {others : List β}
    (every : List.Forall₂ related list others) {other : β} (member : other ∈ others) :
    ∃ entry ∈ list, related entry other := by
  induction every with
  | nil => cases member
  | cons own rest ih =>
      rcases List.mem_cons.mp member with rfl | later
      · exact ⟨_, List.mem_cons_self, own⟩
      · obtain ⟨entry, inside, same⟩ := ih later
        exact ⟨entry, List.mem_cons_of_mem _ inside, same⟩

theorem swept_words {todo done : List Document}
    (swept : List.Forall₂ (Document.Swept numTopics entry) todo done) :
    done.map Document.words = todo.map Document.words := by
  induction swept with
  | nil => rfl
  | cons own rest ih => rw [List.map_cons, List.map_cons, own.words, ih]

theorem Passed.sound (passed : Passed numTopics id entry slice before after)
    (sound : before.Sound given numTopics id) (here : before.store.slices[id]? = some slice)
    (there : before.vocab.slices[id]? = some entry) :
    after.Sound given numTopics (id + 1) := by
  obtain ⟨settings, vocab, _, size, ready, docs,
    ⟨slice', summary', store, counted, shape, sameSize⟩, foreign⟩ := passed
  have words := swept_words docs
  have own : (Tokens.ofDocs after.block.docs.toList).map Token.word =
      (Tokens.ofDocs before.block.docs.toList).map Token.word := by
    rw [Tokens.map_word_ofDocs, Tokens.map_word_ofDocs, words]
  obtain ⟨place, _⟩ := sound.tallies.fits.lastWord sound.laid.lawful here there
  refine ⟨?_, size.symm ▸ sound.workers, ready, words.trans sound.words, ?_,
    vocab.symm ▸ sound.described.congr own, ?_, ?_, ?_, ?_⟩
  · obtain ⟨lawful, spacious, sameSettings, sameVocab, positive, numVocabs⟩ := sound.laid
    rw [← vocab] at lawful spacious sameVocab
    rw [← settings] at sameSettings numVocabs
    exact ⟨lawful, spacious, sameSettings, sameVocab, positive, numVocabs⟩
  · rw [← Multiset.card_map Token.word, own, Multiset.card_map]
    exact sound.small
  · intro doc member
    obtain ⟨old, _, swept⟩ := exists_related docs member
    exact swept.topics
  · rw [vocab, store]
    exact sound.tallies.set sound.laid.lawful here counted shape sameSize foreign
  · rw [store]
    exact counted.totals
  · intro doc member
    obtain ⟨old, inside, swept⟩ := exists_related docs member
    rw [vocab]
    exact swept.paused (sound.paused old inside) place there

/-- A pass over the next slice succeeds, whatever is drawn. -/
theorem Sound.sampleSlice (sound : engine.Sound given numTopics id)
    (inside : id < engine.vocab.slices.size) :
    ∃ after, Engine.sampleSlice id engine = .ok () after ∧ after.Sound given numTopics (id + 1) ∧
      after.settings = engine.settings ∧ after.vocab = engine.vocab ∧
      after.iteration = engine.iteration := by
  have there := Array.getElem?_eq_getElem inside
  obtain ⟨slice, here, _, shape⟩ := sound.tallies.fits.slice there
  have counted := sound.tallies.counted id slice here
  have legal :
      (engine.proposalsOf engine.vocab.slices[id] slice).Legal engine.store.summary.numTopics :=
    counted.build_legal shape engine.settings.beta engine.settings.betaSum
  have waits := sound.waits here there
  have ready := sound.ready
  rw [← sound.total_numTopics] at waits ready
  obtain ⟨after, sampled, passed⟩ : ∃ after, Engine.sampleSlice id engine = .ok () after ∧
      Passed engine.store.summary.numTopics id engine.vocab.slices[id] slice engine after := by
    simp only [Engine.sampleSlice, there, here]
    split
    · next sampler lone =>
      have own : sampler ∈ engine.samplers :=
        Array.mem_toList_iff.mp (lone ▸ List.mem_singleton_self sampler)
      have size : engine.samplers.size = 1 := by
        rw [← Array.length_toList, lone, List.length_singleton]
      exact sampleInPlace_passed here legal counted waits size (ready sampler own)
    · exact sampleByOverlays_passed here legal counted waits sound.workers ready
  rw [sound.total_numTopics] at passed
  exact ⟨after, sampled, passed.sound sound here there, passed.settings, passed.vocab,
    passed.iteration⟩

theorem Sound.sampleSlices (count : Nat) (sound : engine.Sound given numTopics id)
    (rest : id + count = engine.vocab.slices.size) :
    ∃ after, Engine.sampleSlices count id engine = .ok () after ∧
      after.Sound given numTopics engine.vocab.slices.size ∧
      after.settings = engine.settings ∧ after.vocab = engine.vocab ∧
      after.iteration = engine.iteration := by
  induction count generalizing id engine with
  | zero =>
      rw [Nat.add_zero] at rest
      exact ⟨engine, rfl, rest ▸ sound, rfl, rfl, rfl⟩
  | succ count ih =>
      obtain ⟨between, sampled, soundNext, settings, vocab, iteration⟩ :=
        sound.sampleSlice (by omega)
      obtain ⟨after, others, soundAfter, settings', vocab', iteration'⟩ :=
        ih soundNext (by rw [vocab]; omega)
      rw [vocab] at soundAfter
      refine ⟨after, ?_, soundAfter, settings'.trans settings, vocab'.trans vocab,
        iteration'.trans iteration⟩
      rw [Engine.sampleSlices, sampled]
      exact others

end LatentTopics.Engine
