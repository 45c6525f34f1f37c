import Mathlib
import LatentTopics.Proofs.Engine.Inference
import LatentTopics.Proofs.Likelihood
import LatentTopics.Proofs.Likelihood.Sums

/-! The word likelihood of engines. The vocabulary has a row for each word of the documents and for
no other, while the terms of the topics count all word ids. So the likelihood is that of the
assignments up to the ids that no document has. -/
namespace LatentTopics

namespace Engine

open Likelihood

variable {settings : Settings} {seed : Nat} {block : Block} {engine : Engine}

theorem Reached.frozen (reached : Reached settings seed block engine) :
    ∃ first, Engine.start settings seed block = .ok first ∧ engine.settings = first.settings ∧
      engine.vocab = first.vocab := by
  induction reached with
  | @start engine started => exact ⟨engine, started, rfl, rfl⟩
  | draw reached alike ih => exact ih
  | iterate reached ih =>
      obtain ⟨first, started, settings, vocab⟩ := ih
      have intact := keeps_runIteration _ reached.intact.2.2
      exact ⟨first, started, intact.settings.trans settings, intact.vocab.trans vocab⟩
  | @infer engine reached iterations other ih =>
      obtain ⟨lawful, numTopics, intact⟩ := reached.intact
      cases legal : other.validate engine.settings.numVocabs engine.settings.numTopics with
      | error fault =>
          simp only [Update.left, Engine.infer, legal]
          exact ih
      | ok _ =>
          obtain ⟨state, inferring, left⟩ := left_infer numTopics lawful intact legal iterations
          rw [left, inferring.same]
          exact ih

theorem Reached.words_lt (reached : Reached settings seed block engine) :
    ∀ entry ∈ engine.vocab.words, entry.word < engine.settings.numVocabs := by
  obtain ⟨first, started, settings, vocab⟩ := reached.frozen
  have begun := start_eq_ok.mp started
  obtain ⟨_, made, cut⟩ := begun.laidOut
  rw [settings, vocab, cut]
  intro entry member
  obtain ⟨doc, listed, inside⟩ :=
    (Vocabulary.mem_ofDocuments made _ entry.word).mp ⟨entry, member, rfl⟩
  obtain ⟨token, own, same⟩ := Array.mem_map.mp inside
  rw [← same]
  exact (Block.below_of_validate begun.accepted.legal token
    (Tokens.mem_ofDocs.mpr ⟨doc, listed, own⟩)).1

/-- Nothing that is done to an engine takes its counts away from its documents. -/
theorem Reached.sound (reached : Reached settings seed block engine)
    (sorted : ∀ doc ∈ block.docs, doc.Sorted) (few : block.numTokens < 2147483648) :
    engine.Sound block settings.numTopics 0 := by
  induction reached with
  | start started => exact sound_of_start started sorted few
  | draw reached alike ih => exact ih.redraw alike
  | @iterate engine reached ih =>
      obtain ⟨between, report, sampled, _, _, ran⟩ := ih.runIteration
      obtain ⟨after, again, sound, _⟩ :=
        ih.zeroStatistics.sampleSlices engine.vocab.slices.size (Nat.zero_add _)
      rw [sampled] at again
      cases again
      rw [Update.left_of_ok ran]
      exact (sound.reseed sound.workers sound.ready _).rewind
  | @infer engine reached iterations other ih =>
      obtain ⟨lawful, numTopics, intact⟩ := reached.intact
      cases legal : other.validate engine.settings.numVocabs engine.settings.numTopics with
      | error fault =>
          simp only [Update.left, Engine.infer, legal]
          exact ih
      | ok _ =>
          obtain ⟨state, inferring, left⟩ := left_infer numTopics lawful intact legal iterations
          rw [left, inferring.same]
          apply ih.reseed
          · exact inferring.workers.symm ▸ ih.workers
          · exact fun sampler member => ih.laid.vocab ▸ inferring.ready sampler member

section Words

variable {F : Type} [Field F] [LinearOrder F]

theorem Reached.ofStore_eq (g : F → F) (beta : F)
    (reached : Reached settings seed block engine) {value : F}
    (found : ofStore g beta engine.store engine.settings.numVocabs = .ok value) :
    value + (absentWords engine.settings.numTopics engine.settings.numVocabs
        engine.store.count).card *
        (engine.settings.numTopics * g beta) =
      dirichletMultinomial g beta engine.settings.numTopics engine.settings.numVocabs
        engine.store.count
        engine.store.summary.get := by
  obtain ⟨lawful, numTopics, intact⟩ := reached.intact
  exact Likelihood.ofStore_eq lawful intact.store numTopics reached.words_lt found

theorem Reached.ofStore_ok (g : F → F) (beta : F) (reached : Reached settings seed block engine)
    (sorted : ∀ doc ∈ block.docs, doc.Sorted) (few : block.numTokens < 2147483648) :
    ∃ value, ofStore g beta engine.store engine.settings.numVocabs = .ok value := by
  have sound := reached.sound sorted few
  exact Likelihood.ofStore_ok g beta sound.tallies sound.totals sound.laid.numVocabs

/-- The word likelihood is that of the assignments, less
what the word ids without a token would contribute. -/
theorem wordLikelihood_short (g : F → F) (beta : F) (reached : Reached settings seed block engine) :
    (∀ value, ofStore g beta engine.store engine.settings.numVocabs = .ok value →
      value +
          (absentWords engine.settings.numTopics engine.settings.numVocabs
            engine.store.count).card * (engine.settings.numTopics * g beta) =
        dirichletMultinomial g beta engine.settings.numTopics engine.settings.numVocabs
          engine.store.count engine.store.summary.get) ∧
      ((∀ doc ∈ block.docs, doc.Sorted) → block.numTokens < 2147483648 →
        ∃ value, ofStore g beta engine.store engine.settings.numVocabs = .ok value) :=
  ⟨fun _ found => reached.ofStore_eq g beta found, fun sorted few =>
    reached.ofStore_ok g beta sorted few⟩

end Words

section Gap

/-- One token of the word 1; the word 0 has none. -/
def gap : Block :=
  ⟨#[⟨#[⟨1, 0⟩], 0⟩]⟩

theorem gap_sorted : ∀ doc ∈ gap.docs, doc.Sorted := by
  simp [gap, Document.Sorted]

theorem exists_gap : ∃ engine, Reached { numTopics := 1 } 1 gap engine ∧
    engine.settings.numTopics = 1 ∧
    engine.settings.numVocabs = 2 ∧ absentWords 1 2 engine.store.count = {0} := by
  have few : gap.numTokens < 2147483648 := by decide
  obtain ⟨engine, started⟩ :=
    (exists_start_iff few 1).mpr
    (by decide +kernel : Accepts (withVocabSize { numTopics := 1 } gap) gap)
  have begun := start_eq_ok.mp started
  have same : engine.settings = { numTopics := 1, numVocabs := 2 } := begun.sized
  have counts : engine.store.count = fun word topic => (gap.tokens.count ⟨word, topic⟩ : Int) := by
    funext word topic
    rw [(sound_of_start started gap_sorted few).consistent.counts, begun.whole]
  refine ⟨engine, .start started, by rw [same], by rw [same], ?_⟩
  rw [counts]
  decide

theorem wordLikelihood_short_gap : ∃ engine value, Reached { numTopics := 1 } 1 gap engine ∧
    ofStore (fun _ => 1) (1 : ℚ) engine.store 2 = .ok value ∧
      value + 1 = dirichletMultinomial (fun _ => 1) 1 1 2 engine.store.count
        engine.store.summary.get := by
  obtain ⟨engine, reached, numTopics, numVocabs, absent⟩ := exists_gap
  obtain ⟨short, exists_value⟩ := wordLikelihood_short (fun _ => (1 : ℚ)) 1 reached
  obtain ⟨value, found⟩ := exists_value gap_sorted (by decide)
  have whole := short value found
  rw [numTopics, numVocabs, absent, Finset.card_singleton, Nat.cast_one, mul_one, mul_one] at whole
  exact ⟨engine, value, reached, numVocabs ▸ found, whole⟩

/-- It is not always that of the assignments. -/
theorem wordLikelihood_differs :
    ¬ ∀ (settings : Settings) (seed : Nat) (block : Block) (engine : Engine),
    Reached settings seed block engine → ∀ (g : ℚ → ℚ) (beta value : ℚ),
      ofStore g beta engine.store engine.settings.numVocabs = .ok value →
        value = dirichletMultinomial g beta engine.settings.numTopics engine.settings.numVocabs
          engine.store.count
          engine.store.summary.get := by
  intro claimed
  obtain ⟨engine, reached, numTopics, numVocabs, absent⟩ := exists_gap
  obtain ⟨value, found⟩ := reached.ofStore_ok (fun _ => (1 : ℚ)) 1 gap_sorted (by decide)
  have short := reached.ofStore_eq _ _ found
  rw [← claimed _ _ _ _ reached _ _ _ found, numTopics, numVocabs, absent, Finset.card_singleton,
    Nat.cast_one, mul_one, mul_one] at short
  exact one_ne_zero (add_eq_left.mp short)

end Gap

end Engine

end LatentTopics
