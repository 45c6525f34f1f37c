import LatentTopics.Counts.Store
import LatentTopics.Engine.Pass
import LatentTopics.Files
import LatentTopics.Likelihood
import LatentTopics.Report

/-! Iterations: passes over all slices, after which the counts are checked and reported. -/
namespace LatentTopics

structure LogLikelihood where
  doc : Float
  word : Float
  deriving DecidableEq, Repr, Inhabited

def LogLikelihood.total (value : LogLikelihood) : Float :=
  value.doc + value.word

structure IterationReport where
  iteration : Nat
  numTokens : Nat
  stats : SamplerStats
  likelihood : Option LogLikelihood
  deriving DecidableEq, Repr, Inhabited

namespace Engine

def docLikelihood (numTopics : Nat) : List Document → Float → Except Fault Float
  | [], sum => .ok sum
  | doc :: docs, sum =>
      match Likelihood.ofDocument doc numTopics ∅ with
      | .ok value _ => docLikelihood numTopics docs (sum + value)
      | .error fault _ => .error fault

def logLikelihood (engine : Engine) : Except Fault LogLikelihood := do
  let settings := engine.settings
  let doc ← docLikelihood settings.numTopics engine.block.docs.toList 0.0
  let word ← Likelihood.ofStore Likelihood.logGamma settings.beta engine.store settings.numVocabs
  return ⟨doc, word⟩

def sampleSlices : Nat → Nat → Update Engine Unit
  | 0, _, engine => .ok () engine
  | count + 1, id, engine =>
      match sampleSlice id engine with
      | .ok _ engine => sampleSlices count (id + 1) engine
      | .error fault engine => .error fault engine

def zeroStatistics (engine : Engine) : Engine :=
  { engine with samplers := engine.samplers.map Sampler.zeroStatistics }

def statistics (engine : Engine) : SamplerStats :=
  engine.samplers.foldl (fun stats sampler => stats + sampler.stats) SamplerStats.zero

def isDue (interval : Option Nat) (iteration : Nat) : Bool :=
  match interval with
  | some interval => iteration % interval = 0
  | none => false

def dueLikelihood (engine : Engine) (iteration : Nat) : Except Fault (Option LogLikelihood) :=
  if isDue engine.settings.likelihoodInterval iteration then engine.logLikelihood.map some
  else .ok none

/-- One pass over every slice. The iteration counts as done before its likelihood is computed. -/
def runIteration : Update Engine IterationReport := fun engine =>
  match sampleSlices engine.vocab.slices.size 0 engine.zeroStatistics with
  | .error fault engine => .error fault engine
  | .ok _ engine =>
      match engine.store.check engine.vocab with
      | .error fault => .error fault engine
      | .ok _ =>
          let iteration := engine.iteration
          let engine := { engine with iteration := iteration + 1 }
          match engine.dueLikelihood iteration with
          | .error fault => .error fault engine
          | .ok likelihood =>
              .ok ⟨iteration, engine.block.numTokens, engine.statistics, likelihood⟩ engine

end Engine

/-! Training: iterations one after another, with the counts
written to a file at the intervals that the settings ask for. -/
namespace Engine

variable {m : Type → Type} [Monad m] [MonadFiles m]

def saveWordTopics (path : String) (engine : Engine) : m (Except Fault Unit) :=
  MonadFiles.save path (Report.wordTopicText engine.store).toUTF8

def dumpPath (outputPrefix : String) (iteration : Nat) : String :=
  s!"{outputPrefix}.word_topic.{iteration}"

def saveDue (outputPrefix : Option String) (iteration : Nat) (engine : Engine) :
    m (Except Fault Unit) :=
  match outputPrefix with
  | some name =>
      if isDue engine.settings.dumpInterval (iteration + 1) then
        engine.saveWordTopics (dumpPath name iteration)
      else return .ok ()
  | none => return .ok ()

def iterate (outputPrefix : Option String) (engine : Engine) :
    m (Except Fault IterationReport × Engine) := do
  match runIteration engine with
  | .error fault engine => return (.error fault, engine)
  | .ok report engine =>
      match ← engine.saveDue outputPrefix report.iteration with
      | .error fault => return (.error fault, engine)
      | .ok _ => return (.ok report, engine)

def iterateTimes (outputPrefix : Option String) :
    Nat → List IterationReport → Engine → m (Except Fault (List IterationReport) × Engine)
  | 0, reports, engine => return (.ok reports.reverse, engine)
  | count + 1, reports, engine => do
      match ← engine.iterate outputPrefix with
      | (.error fault, engine) => return (.error fault, engine)
      | (.ok report, engine) => iterateTimes outputPrefix count (report :: reports) engine

def train (outputPrefix : Option String) (engine : Engine) :
    m (Except Fault (List IterationReport) × Engine) :=
  iterateTimes outputPrefix engine.settings.numIterations [] engine

end Engine

end LatentTopics
