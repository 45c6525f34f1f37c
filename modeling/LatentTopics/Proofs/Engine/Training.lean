import Mathlib
import LatentTopics.Engine.Training
import LatentTopics.Proofs.Engine.Iterations
import LatentTopics.Proofs.Engine.Starts

/-! Training as a whole. Whatever is drawn, by however many workers, no pass and no iteration of a
run fails, and after every pass the counts are exactly those of the documents. -/
namespace LatentTopics

/-- The same sampler with other draws: its generator may
stand anywhere, and moves may be weighed in any way. -/
structure Sampler.Alike (sampler other : Sampler) : Prop where
  numTopics : other.numTopics = sampler.numTopics
  counter : other.counter = sampler.counter

namespace Engine

/-- The states of a run, with the number of slices that the current iteration has behind it. Draws
may be replaced between any two passes. -/
inductive Runs (settings : Settings) (seed : Nat) (block : Block) : Nat → Engine → Prop where
  | start {engine : Engine} (started : Engine.start settings seed block = .ok engine) :
      Runs settings seed block 0 engine
  | draw {id : Nat} {engine : Engine} (run : Runs settings seed block id engine)
      {samplers : Array Sampler}
      (alike : List.Forall₂ Sampler.Alike engine.samplers.toList samplers.toList) :
      Runs settings seed block id { engine with samplers := samplers }
  | slice {id : Nat} {engine after : Engine} (run : Runs settings seed block id engine)
      (inside : id < engine.vocab.slices.size) (sampled : sampleSlice id engine = .ok () after) :
      Runs settings seed block (id + 1) after
  | next {id : Nat} {engine : Engine} (run : Runs settings seed block id engine)
      (done : id = engine.vocab.slices.size) :
      Runs settings seed block 0 { engine with iteration := engine.iteration + 1 }

/-- The counts are what the documents say, and of the documents nothing but topics has changed. -/
structure Consistent (settings : Settings) (given : Block) (engine : Engine) : Prop where
  counts : ∀ word topic, engine.store.count word topic = engine.block.tokens.count ⟨word, topic⟩
  totals : ∀ topic, engine.store.summary.get topic = engine.block.tokens.countP fun token =>
    token.topic = topic
  numTopics : engine.store.summary.numTopics = settings.numTopics
  checked : engine.store.check engine.vocab = .ok ()
  words : engine.block.docs.map Document.words = given.docs.map Document.words
  topics : ∀ token ∈ engine.block.tokens, token.topic < settings.numTopics

variable {settings : Settings} {seed numTopics id : Nat} {block : Block} {engine after : Engine}

theorem Sound.consistent (sound : engine.Sound block settings.numTopics id) :
    engine.Consistent settings block := by
  have topics : ∀ token ∈ engine.block.tokens, token.topic < settings.numTopics := by
    intro token member
    obtain ⟨doc, inside, own⟩ := Tokens.mem_ofDocs.mp member
    exact sound.topics doc inside token own
  refine ⟨?_, ?_, sound.total_numTopics, sound.check, ?_, topics⟩
  · intro word topic
    rw [sound.tallies.count_eq sound.laid.lawful sound.described.known, Tokens.ofDocs,
      Multiset.coe_count]
    rfl
  · intro topic
    rw [sound.totals.get_eq (sound.total_numTopics.symm ▸ topics), Tokens.ofTopic, Tokens.ofDocs,
      Multiset.coe_countP]
    rfl
  · apply Array.toList_inj.mp
    rw [Array.toList_map, Array.toList_map]
    exact sound.words

theorem Sound.redraw (sound : engine.Sound block numTopics id) {samplers : Array Sampler}
    (alike : List.Forall₂ Sampler.Alike engine.samplers.toList samplers.toList) :
    Sound block numTopics id { engine with samplers := samplers } := by
  apply sound.reseed
  · have size := alike.length_eq
    rw [Array.length_toList, Array.length_toList] at size
    exact size ▸ sound.workers
  · intro sampler member
    obtain ⟨old, inside, same⟩ := exists_related alike (Array.mem_toList_iff.mpr member)
    have ready := sound.ready old (Array.mem_toList_iff.mp inside)
    exact ⟨same.numTopics.trans ready.numTopics, same.counter.symm ▸ ready.power⟩

theorem Runs.sound (sorted : ∀ doc ∈ block.docs, doc.Sorted) (few : block.numTokens < 2147483648)
    (run : Runs settings seed block id engine) : engine.Sound block settings.numTopics id := by
  induction run with
  | start started => exact sound_of_start started sorted few
  | draw run alike ih => exact ih.redraw alike
  | slice run inside sampled ih =>
      obtain ⟨after, again, sound, _⟩ := ih.sampleSlice inside
      rw [sampled] at again
      cases again
      exact sound
  -- The next iteration rewinds every document, whatever its cursor.
  | next run done ih => exact (ih.reseed ih.workers ih.ready _).rewind

theorem Runs.zeroStatistics (run : Runs settings seed block id engine) :
    Runs settings seed block id engine.zeroStatistics := by
  apply run.draw
  rw [Array.toList_map, List.forall₂_map_right_iff, List.forall₂_same]
  exact fun sampler _ => ⟨rfl, rfl⟩

theorem Runs.sampleSlices (sorted : ∀ doc ∈ block.docs, doc.Sorted)
    (few : block.numTokens < 2147483648) (count : Nat) (run : Runs settings seed block id engine)
    (rest : id + count = engine.vocab.slices.size)
    (sampled : Engine.sampleSlices count id engine = .ok () after) :
    Runs settings seed block (id + count) after := by
  induction count generalizing id engine with
  | zero =>
      cases sampled
      exact run
  | succ count ih =>
      have inside : id < engine.vocab.slices.size := by omega
      obtain ⟨between, first, _, _, vocab, _⟩ := (run.sound sorted few).sampleSlice inside
      rw [Engine.sampleSlices, first] at sampled
      have shape : id + (count + 1) = id + 1 + count := by omega
      rw [shape] at rest ⊢
      exact ih (run.slice inside first) (by rw [vocab]; exact rest) sampled

theorem Runs.iteration (sorted : ∀ doc ∈ block.docs, doc.Sorted)
    (few : block.numTokens < 2147483648) (run : Runs settings seed block 0 engine) :
    ∃ report after, runIteration engine = .ok report after ∧ Runs settings seed block 0 after := by
  obtain ⟨between, report, sampled, vocab, _, ran⟩ := (run.sound sorted few).runIteration
  have passed := run.zeroStatistics.sampleSlices sorted few engine.vocab.slices.size
    (Nat.zero_add _) sampled
  rw [Nat.zero_add, ← vocab] at passed
  exact ⟨report, _, ran, passed.next rfl⟩

theorem Runs.iterations (sorted : ∀ doc ∈ block.docs, doc.Sorted)
    (few : block.numTokens < 2147483648) (count : Nat) (run : Runs settings seed block 0 engine)
    (earlier : List IterationReport) :
    ∃ reports after, reports.length = count ∧ Runs settings seed block 0 after ∧
      ∀ (m : Type → Type) [Monad m] [LawfulMonad m] [MonadFiles m],
        (iterateTimes none count earlier engine : m _) =
          pure (.ok (earlier.reverse ++ reports), after) := by
  induction count generalizing engine earlier with
  | zero =>
      refine ⟨[], engine, rfl, run, ?_⟩
      intro m _ _ _
      rw [iterateTimes, List.append_nil]
  | succ count ih =>
      obtain ⟨report, between, ran, runNext⟩ := run.iteration sorted few
      obtain ⟨reports, after, length, runAfter, every⟩ := ih runNext (report :: earlier)
      refine ⟨report :: reports, after, by rw [List.length_cons, length], runAfter, ?_⟩
      intro m _ _ _
      have rest := every m
      rw [List.reverse_cons, List.append_assoc] at rest
      simp only [iterateTimes, iterate, ran, saveDue, pure_bind]
      exact rest

/-- Training is consistent: at every moment between two passes the counts are those of the
documents, the next pass succeeds, and so does every number of iterations. -/
theorem training_consistent (sorted : ∀ doc ∈ block.docs, doc.Sorted)
    (few : block.numTokens < 2147483648) (run : Runs settings seed block id engine) :
    engine.Consistent settings block ∧
    (id < engine.vocab.slices.size →
      ∃ after, sampleSlice id engine = .ok () after ∧ Runs settings seed block (id + 1) after) ∧
    (id = 0 → ∃ report after, runIteration engine = .ok report after ∧
      Runs settings seed block 0 after) ∧
    (id = 0 → ∀ count, ∃ reports after, reports.length = count ∧ Runs settings seed block 0 after ∧
      ∀ (m : Type → Type) [Monad m] [LawfulMonad m] [MonadFiles m],
        (iterateTimes none count [] engine : m _) = pure (.ok reports, after)) := by
  have sound := run.sound sorted few
  refine ⟨sound.consistent, ?_, ?_, ?_⟩
  · intro inside
    obtain ⟨after, sampled, _⟩ := sound.sampleSlice inside
    exact ⟨after, sampled, run.slice inside sampled⟩
  · rintro rfl
    exact run.iteration sorted few
  · rintro rfl count
    exact run.iterations sorted few count []

/-- Two workers on two documents. -/
theorem training_consistent_pair :
    let settings : Settings := { numTopics := 2, numWorkers := 2, counterCapacity := 1 }
    let block : Block := ⟨#[⟨#[⟨3, 0⟩, ⟨7, 1⟩], 0⟩, ⟨#[⟨7, 0⟩], 0⟩]⟩
    (∀ doc ∈ block.docs, doc.Sorted) ∧ block.numTokens < 2147483648 ∧
    ∃ engine, Runs settings 1 block 0 engine ∧ engine.Consistent settings block ∧
      ∃ report after, runIteration engine = .ok report after ∧ Runs settings 1 block 0 after := by
  intro settings block
  have sorted : ∀ doc ∈ block.docs, doc.Sorted := by
    simp [block, Document.Sorted]
  have few : block.numTokens < 2147483648 := by decide
  obtain ⟨engine, started⟩ :=
    (exists_start_iff few 1).mpr (by decide +kernel : Accepts (withVocabSize settings block) block)
  have run : Runs settings 1 block 0 engine := .start started
  have consistent := training_consistent sorted few run
  exact ⟨sorted, few, engine, run, consistent.1, consistent.2.2.1 rfl⟩

end Engine

end LatentTopics
