import Mathlib
import LatentTopics.Proofs.Engine.Slices
import LatentTopics.Proofs.Likelihood

/-! Iterations. After the last slice the check accepts the counts and their likelihood exists, and
the next iteration begins like the first one. -/
namespace LatentTopics.Engine

variable {given : Block} {numTopics id : Nat} {engine : Engine}

theorem Sound.reseed (sound : engine.Sound given numTopics id) {samplers : Array Sampler}
    (workers : 0 < samplers.size) (ready : ∀ sampler ∈ samplers, sampler.Ready numTopics)
    (iteration : Nat) :
    Sound given numTopics id { engine with samplers := samplers, iteration := iteration } := by
  obtain ⟨⟨lawful, spacious, settings, vocab, positive, numVocabs⟩, _, _, words, small, described,
    topics, tallies, totals, paused⟩ := sound
  exact ⟨⟨lawful, spacious, settings, vocab, positive, numVocabs⟩, workers, ready, words, small,
    described, topics, tallies, totals, paused⟩

theorem Sound.rewind (sound : engine.Sound given numTopics id) : engine.Sound given numTopics 0 :=
  { sound with paused := fun doc member => (sound.paused doc member).sorted.paused engine.vocab }

theorem Sound.zeroStatistics (sound : engine.Sound given numTopics id) :
    engine.zeroStatistics.Sound given numTopics id := by
  apply sound.reseed
  · rw [Array.size_map]
    exact sound.workers
  · intro sampler member
    obtain ⟨old, inside, rfl⟩ := Array.mem_map.mp member
    exact ⟨(sound.ready old inside).numTopics, (sound.ready old inside).power⟩

theorem Sound.check (sound : engine.Sound given numTopics id) :
    engine.store.check engine.vocab = .ok () := by
  apply sound.tallies.check sound.laid.lawful sound.described _ sound.totals
  intro token member
  obtain ⟨doc, inside, own⟩ := Tokens.mem_ofDocs.mp member
  rw [sound.total_numTopics]
  exact sound.topics doc inside token own

theorem docLikelihood_ok {docs : List Document}
    (topics : ∀ doc ∈ docs, ∀ token ∈ doc.tokens, token.topic < numTopics)
    (small : ∀ doc ∈ docs, doc.size < 2147483648) (sum : Float) :
    ∃ value, docLikelihood numTopics docs sum = .ok value := by
  induction docs generalizing sum with
  | nil => exact ⟨sum, rfl⟩
  | cons doc docs ih =>
      obtain ⟨value, counter, found⟩ :=
        Likelihood.ofDocument_ok (topics doc List.mem_cons_self) (small doc List.mem_cons_self)
      simp only [docLikelihood, found]
      exact ih (fun later member => topics later (List.mem_cons_of_mem _ member))
        (fun later member => small later (List.mem_cons_of_mem _ member)) _

theorem Sound.logLikelihood (sound : engine.Sound given numTopics id) :
    ∃ value, engine.logLikelihood = .ok value := by
  have topics := sound.topics
  rw [← sound.laid.settings] at topics
  obtain ⟨doc, docs⟩ := docLikelihood_ok topics (fun doc member => sound.size_lt member) 0.0
  obtain ⟨word, words⟩ :=
    Likelihood.ofStore_ok Likelihood.logGamma engine.settings.beta sound.tallies sound.totals
    sound.laid.numVocabs
  refine ⟨⟨doc, word⟩, ?_⟩
  simp only [Engine.logLikelihood, docs, words, bind, Except.bind, pure, Except.pure]

theorem Sound.runIteration (sound : engine.Sound given numTopics 0) :
    ∃ between report, Engine.sampleSlices engine.vocab.slices.size 0 engine.zeroStatistics =
        .ok () between ∧
      between.vocab = engine.vocab ∧ report.iteration = engine.iteration ∧
      Engine.runIteration engine =
        .ok report { between with iteration := between.iteration + 1 } := by
  obtain ⟨between, sampled, soundAfter, _, vocab, iteration⟩ :=
    sound.zeroStatistics.sampleSlices engine.vocab.slices.size (Nat.zero_add _)
  let finished : Engine := { between with iteration := between.iteration + 1 }
  have next : finished.Sound given numTopics engine.vocab.slices.size :=
    soundAfter.reseed soundAfter.workers soundAfter.ready (between.iteration + 1)
  obtain ⟨value, found⟩ := next.logLikelihood
  obtain ⟨likelihood, due⟩ :
    ∃ likelihood, finished.dueLikelihood between.iteration = .ok likelihood := by
    rw [dueLikelihood]
    split
    · exact ⟨some value, by rw [found]; rfl⟩
    · exact ⟨none, rfl⟩
  refine ⟨between, ⟨between.iteration, finished.block.numTokens, finished.statistics, likelihood⟩,
    sampled, vocab, iteration, ?_⟩
  simp only [finished] at due
  simp only [Engine.runIteration, sampled, soundAfter.check, due, finished]

end LatentTopics.Engine
