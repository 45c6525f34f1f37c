import Mathlib
import LatentTopics.Proofs.Counts.Documents
import LatentTopics.Proofs.Engine.Slices

/-! The start of a run. Settings and documents that pass their
checks make an engine, and its counts are those of the documents. -/
namespace LatentTopics

namespace Settings

structure Sane (settings : Settings) : Prop where
  positive : 0 < settings.numTopics
  loadFactor : 2 ≤ settings.loadFactor
  workers : 0 < settings.numWorkers

theorem sane_of_validate {settings : Settings} (accepted : settings.validate = .ok ()) :
    settings.Sane := by
  have none : settings.firstFault = none := by
    rw [validate] at accepted
    split at accepted
    · cases accepted
    · next found => exact found
  simp only [firstFault] at none
  split_ifs at none with noTopics many priors noRounds small noWorkers capacity interval
  exact ⟨Nat.pos_of_ne_zero noTopics, by omega, Nat.pos_of_ne_zero noWorkers⟩

end Settings

namespace Block

theorem numTokens_eq_card (block : Block) :
    block.numTokens = Multiset.card (Tokens.ofDocs block.docs.toList) := by
  rw [numTokens, Tokens.ofDocs, Multiset.coe_card, List.length_flatMap]
  rfl

variable {numVocabs numTopics : Nat} {tokens : List Token} {block : Block}

theorem firstFault_eq_none (fine : firstFault numVocabs numTopics tokens = none) :
    ∀ token ∈ tokens, token.word < numVocabs ∧ token.topic < numTopics := by
  induction tokens with
  | nil => exact fun token member => absurd member List.not_mem_nil
  | cons first tokens ih =>
      rw [firstFault] at fine
      split_ifs at fine with word topic
      exact List.forall_mem_cons.mpr ⟨⟨not_le.mp word, not_le.mp topic⟩, ih fine⟩

theorem below_of_validate (accepted : block.validate numVocabs numTopics = .ok ()) :
    ∀ token ∈ block.tokens, token.word < numVocabs ∧ token.topic < numTopics := by
  rw [validate] at accepted
  split at accepted
  · cases accepted
  · next fine => exact firstFault_eq_none fine

theorem topics_of_validate (accepted : block.validate numVocabs numTopics = .ok ()) :
    ∀ token ∈ block.tokens, token.topic < numTopics :=
  fun token member => (below_of_validate accepted token member).2

end Block

namespace Engine

variable {settings : Settings} {seed : Nat} {block : Block} {engine : Engine}

theorem withVocabSize_numTopics (settings : Settings) (block : Block) :
    (withVocabSize settings block).numTopics = settings.numTopics := by
  rw [withVocabSize]
  split <;> rfl

theorem forkSamplers_every {P : Sampler → Prop} {settings : Settings}
    (made : ∀ rng, P (Sampler.ofSettings settings rng)) (count : Nat) {samplers : Array Sampler}
    (rng : Xorshift) (every : ∀ sampler ∈ samplers, P sampler) :
    (forkSamplers settings count samplers rng).size = samplers.size + count ∧
      ∀ sampler ∈ forkSamplers settings count samplers rng, P sampler := by
  induction count generalizing samplers rng with
  | zero => exact ⟨rfl, every⟩
  | succ count ih =>
      have next : ∀ sampler ∈ samplers.push (Sampler.ofSettings settings rng.fork.1),
          P sampler := by
        intro sampler member
        rcases Array.mem_push.mp member with old | rfl
        · exact every sampler old
        · exact made rng.fork.1
      obtain ⟨size, every'⟩ := ih rng.fork.2 next
      rw [forkSamplers]
      refine ⟨?_, every'⟩
      rw [size, Array.size_push]
      omega

theorem ofSettings_ready (settings : Settings) (rng : Xorshift) :
    (Sampler.ofSettings settings rng).Ready settings.numTopics := by
  refine ⟨rfl, ?_⟩
  have capacity : (TopicCounter.ofCapacity settings.counterCapacity).capacity =
      settings.counterCapacity.nextPowerOfTwo :=
    Array.size_replicate
  exact capacity ▸ Nat.isPowerOfTwo_nextPowerOfTwo _

/-- The checks of a start, all of them passed. -/
structure Accepts (settings : Settings) (block : Block) : Prop where
  numVocabs : settings.numVocabs ≠ 0
  nonempty : block.numTokens ≠ 0
  checked : settings.validate = .ok ()
  legal : block.validate settings.numVocabs settings.numTopics = .ok ()

instance (settings : Settings) (block : Block) : Decidable (Accepts settings block) :=
  decidable_of_iff (settings.numVocabs ≠ 0 ∧ block.numTokens ≠ 0 ∧ settings.validate = .ok () ∧
      block.validate settings.numVocabs settings.numTopics = .ok ())
    ⟨fun ⟨numVocabs, nonempty, checked, legal⟩ => ⟨numVocabs, nonempty, checked, legal⟩,
      fun accepts => ⟨accepts.numVocabs, accepts.nonempty, accepts.checked, accepts.legal⟩⟩

/-- An engine at its start. The words of the documents are laid out and cut by the limits of the
settings, and the topics that the documents start with are counted. -/
structure Started (settings : Settings) (seed : Nat) (block : Block) (engine : Engine) : Prop where
  sized : engine.settings = withVocabSize settings block
  accepted : Accepts engine.settings block
  whole : engine.block = block
  samplers : engine.samplers = forkSamplers engine.settings engine.settings.numWorkers #[]
    (seeder seed)
  laidOut : ∃ vocab, Vocabulary.ofDocuments block.docs.toList engine.settings.numTopics
    engine.settings.loadFactor = .ok vocab ∧
    engine.vocab = vocab.slice ⟨engine.settings.modelMaxCapacity, engine.settings.aliasMaxCapacity⟩
  counted : Store.ofDocuments engine.vocab block.docs.toList = .ok engine.store
  fresh : engine.iteration = 0

theorem start_eq_ok : start settings seed block = .ok engine ↔
    Started settings seed block engine := by
  constructor
  · intro started
    simp only [start, bind, Except.bind, pure, Except.pure, throw, throwThe,
      MonadExceptOf.throw] at started
    split_ifs at started with empty
    rw [not_or] at empty
    split at started
    · cases started
    · next checked =>
      split at started
      · cases started
      · next legal =>
        split at started
        · cases started
        · next vocab made =>
          split at started
          · cases started
          · next store counted =>
            obtain rfl := Except.ok.inj started
            exact ⟨rfl, ⟨empty.1, empty.2, checked, legal⟩, rfl, rfl, ⟨vocab, made, rfl⟩,
              counted, rfl⟩
  · rintro ⟨sized, ⟨numVocabs, nonempty, checked, legal⟩, whole, samplers, ⟨vocab, made, cut⟩,
      counted, fresh⟩
    obtain ⟨settings', vocab', store, block', samplers', iteration⟩ := engine
    dsimp only at *
    subst sized whole samplers cut fresh
    simp only [start, bind, Except.bind, pure, Except.pure, numVocabs, nonempty, or_self, if_false,
      checked, legal, made, counted]

namespace Started

variable (started : Started settings seed block engine)
include started

theorem sane : engine.settings.Sane :=
  Settings.sane_of_validate started.accepted.checked

theorem settings_numTopics : engine.settings.numTopics = settings.numTopics := by
  rw [started.sized, withVocabSize_numTopics]

theorem lawful : engine.vocab.Lawful := by
  obtain ⟨vocab, made, cut⟩ := started.laidOut
  exact cut ▸ Vocabulary.lawful_of_frequencies made _

theorem describes : engine.vocab.Describes (Tokens.ofDocs block.docs.toList) := by
  obtain ⟨vocab, made, cut⟩ := started.laidOut
  exact cut ▸ Vocabulary.ofDocuments_describes made _

theorem numTopics : engine.vocab.numTopics = engine.settings.numTopics := by
  obtain ⟨vocab, made, cut⟩ := started.laidOut
  have numTopics : vocab.numTopics = engine.settings.numTopics :=
    Vocabulary.numTopics_of_frequencies made
  exact cut ▸ numTopics

theorem spacious (few : block.numTokens < 2147483648) : engine.vocab.Spacious := by
  obtain ⟨vocab, made, cut⟩ := started.laidOut
  rw [block.numTokens_eq_card] at few
  exact cut ▸ Vocabulary.ofDocuments_spacious made started.sane.loadFactor few _

theorem topics : ∀ token ∈ block.tokens, token.topic < engine.vocab.numTopics :=
  started.numTopics ▸ Block.topics_of_validate started.accepted.legal

theorem exists_entry : ∃ entry, entry ∈ engine.vocab.words := by
  have some := started.accepted.nonempty
  rw [block.numTokens_eq_card] at some
  obtain ⟨token, member⟩ := Multiset.card_pos_iff_exists_mem.mp (Nat.pos_of_ne_zero some)
  obtain ⟨entry, inside, _⟩ := started.describes.known token member
  exact ⟨entry, inside⟩

theorem samplers_every {P : Sampler → Prop}
    (made : ∀ rng, P (Sampler.ofSettings engine.settings rng)) :
    ∀ sampler ∈ engine.samplers, P sampler := by
  rw [started.samplers]
  exact (forkSamplers_every made _ _ (fun sampler member =>
    absurd member (Array.not_mem_empty sampler))).2

theorem workers : 0 < engine.samplers.size := by
  rw [started.samplers,
    (forkSamplers_every (P := fun _ => True) (fun _ => trivial) _ _ (fun _ _ => trivial)).1]
  exact Nat.add_pos_right _ started.sane.workers

end Started

theorem sound_of_start (started : start settings seed block = .ok engine)
    (sorted : ∀ doc ∈ block.docs, doc.Sorted) (few : block.numTokens < 2147483648) :
    engine.Sound block settings.numTopics 0 := by
  have begun := start_eq_ok.mp started
  have lawful := begun.lawful
  have spacious := begun.spacious few
  have described := begun.describes
  have whole := begun.whole
  have topicsSame := begun.settings_numTopics
  have numTopics := begun.numTopics.trans topicsSame
  obtain ⟨store, again, tallies⟩ :=
    Store.ofDocuments_ok lawful spacious block.docs.toList described.known begun.topics
    (fun entry member => (described.frequencies entry member).le)
  rw [begun.counted] at again
  obtain rfl := Except.ok.inj again
  -- There is a word, so there is a slice, and with it the totals are known.
  obtain ⟨entry, inside⟩ := begun.exists_entry
  obtain ⟨id, slice, here, _⟩ := tallies.fits.exists_slice lawful inside
  have ready := begun.samplers_every (ofSettings_ready engine.settings)
  rw [topicsSame] at ready
  rw [block.numTokens_eq_card] at few
  refine ⟨⟨lawful, spacious, topicsSame, numTopics, topicsSame ▸ begun.sane.positive,
    begun.accepted.numVocabs⟩, begun.workers,
    ready, by rw [whole], whole ▸ few, whole ▸ described, ?_, whole ▸ tallies,
    whole ▸ (tallies.counted id slice here).totals, ?_⟩
  · rw [whole]
    intro doc listed token member
    exact numTopics ▸ begun.topics token (Tokens.mem_ofDocs.mpr ⟨doc, listed, member⟩)
  · rw [whole]
    intro doc listed
    exact (sorted doc (Array.mem_toList_iff.mp listed)).paused engine.vocab

/-- Nothing but the checks keeps a run from starting. -/
theorem exists_start_iff (few : block.numTokens < 2147483648) (seed : Nat) :
    (∃ engine, start settings seed block = .ok engine) ↔
      Accepts (withVocabSize settings block) block := by
  constructor
  · rintro ⟨engine, started⟩
    have started := start_eq_ok.mp started
    exact started.sized ▸ started.accepted
  · intro accepted
    let sized := withVocabSize settings block
    have sane := Settings.sane_of_validate accepted.checked
    obtain ⟨vocab, made⟩ :=
      Vocabulary.exists_ofFrequencies (Vocabulary.frequencies block.docs.toList) sized.numTopics
      (Nat.ne_zero_of_lt sane.loadFactor)
    let limits : Cells := ⟨sized.modelMaxCapacity, sized.aliasMaxCapacity⟩
    have described : (vocab.slice limits).Describes (Tokens.ofDocs block.docs.toList) :=
      Vocabulary.ofDocuments_describes made limits
    have numTopics : vocab.numTopics = sized.numTopics := Vocabulary.numTopics_of_frequencies made
    have topics : ∀ token ∈ block.tokens, token.topic < (vocab.slice limits).numTopics :=
      numTopics.symm ▸ Block.topics_of_validate accepted.legal
    obtain ⟨store, counted, _⟩ :=
      Store.ofDocuments_ok (Vocabulary.lawful_of_frequencies made limits)
      (Vocabulary.ofDocuments_spacious made sane.loadFactor (block.numTokens_eq_card ▸ few) limits)
        block.docs.toList
      described.known topics (fun entry member => (described.frequencies entry member).le)
    exact ⟨⟨sized, vocab.slice limits, store, block,
      forkSamplers sized sized.numWorkers #[] (seeder seed), 0⟩,
      start_eq_ok.mpr ⟨rfl, accepted, rfl, rfl, ⟨vocab, made, rfl⟩, counted, rfl⟩⟩

end Engine

end LatentTopics
