import LatentTopics.Corpus.Block
import LatentTopics.Counts.Store
import LatentTopics.Sampler.Sweep

/-! The engine of a run: its settings, the vocabulary in slices, the counts, the documents, a
sampler for each worker, and the number of iterations that are done. -/
namespace LatentTopics

structure Engine where
  settings : Settings
  vocab : Vocabulary
  store : Store
  block : Block
  samplers : Array Sampler
  iteration : Nat

namespace Engine

def seeder (seed : Nat) : Xorshift :=
  let seed := UInt64.ofNat seed
  Xorshift.ofSeed (seed ^^^ (seed >>> 32)).toUInt32

def forkSamplers (settings : Settings) : Nat → Array Sampler → Xorshift → Array Sampler
  | 0, samplers, _ => samplers
  | count + 1, samplers, rng =>
      let (stream, rng) := rng.fork
      forkSamplers settings count (samplers.push (Sampler.ofSettings settings stream)) rng

/-- Without a vocabulary size in the settings the corpus decides. -/
def withVocabSize (settings : Settings) (block : Block) : Settings :=
  if settings.numVocabs = 0 then { settings with numVocabs := block.numVocabs } else settings

/-- Checks the settings and the documents against them, lays the vocabulary out in slices and counts
the topics that the documents start with. -/
def start (settings : Settings) (seed : Nat) (block : Block) : Except Fault Engine := do
  let settings := withVocabSize settings block
  if settings.numVocabs = 0 ∨ block.numTokens = 0 then throw (.settings .emptyCorpus)
  settings.validate
  block.validate settings.numVocabs settings.numTopics
  let docs := block.docs.toList
  let vocab ← Vocabulary.ofDocuments docs settings.numTopics settings.loadFactor
  let vocab := vocab.slice ⟨settings.modelMaxCapacity, settings.aliasMaxCapacity⟩
  let store ← Store.ofDocuments vocab docs
  return ⟨settings, vocab, store, block, forkSamplers settings settings.numWorkers #[]
    (seeder seed), 0⟩

end Engine

end LatentTopics
