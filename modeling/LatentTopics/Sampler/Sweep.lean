import LatentTopics.Counts.View
import LatentTopics.Sampler.Acceptance
import LatentTopics.Sampler.Chain
import LatentTopics.Settings

/-! Sweeping over the tokens of a document that belong to one slice. The topics of the document are
counted first. Then each token, from the cursor on, is resampled; a new topic is committed to the
model, moved in the document's counts and written to the document, in this order. The cursor moves
only when the whole sweep has succeeded. -/
namespace LatentTopics

structure Sampler where
  rng : Xorshift
  counter : TopicCounter
  stats : SamplerStats
  numTopics : Nat
  mhStep : Nat
  alphaSum : Float
  priors : Priors Float

namespace Sampler

def ofSettings (settings : Settings) (rng : Xorshift) : Sampler :=
  ⟨rng, TopicCounter.ofCapacity settings.counterCapacity, SamplerStats.zero, settings.numTopics,
    settings.mhStep, settings.alphaSum, ⟨settings.alpha, settings.beta, settings.betaSum⟩⟩

def zeroStatistics (sampler : Sampler) : Sampler :=
  { sampler with stats := SamplerStats.zero }

structure Bench (M : Type) where
  sampler : Sampler
  doc : Document
  model : M

variable {M : Type} [TopicCounts M]

@[inline] def tally (counter : TopicCounter) (model : M) (word topic : Nat) : Tally :=
  ⟨counter.get topic, TopicCounts.wordCount model word topic, TopicCounts.total model topic⟩

@[inline] def trainingRule (priors : Priors Float) (counter : TopicCounter) (model : M)
    (word old : Nat) : MoveRule where
  byWord := priors.acceptance (tally counter model word) priors.wordProposal old
  byDoc := priors.acceptance (tally counter model word) priors.docProposal old

/-- Inference leaves the model as it is. -/
@[inline] def frozenRule (priors : Priors Float) (counter : TopicCounter) (model : M)
    (word old : Nat) : MoveRule where
  byWord := priors.frozenByDoc (tally counter model word) old
  byDoc := priors.frozenByWord (tally counter model word)

@[inline] def resample (rule : Priors Float → TopicCounter → M → Nat → Nat → MoveRule)
    (proposals : AliasSlice) (sampler : Sampler) (doc : Document) (model : M) (token : Token) :
    Option Chain :=
  Chain.rounds proposals token.word doc sampler.numTopics sampler.alphaSum
    (rule sampler.priors sampler.counter model token.word token.topic)
    sampler.mhStep ⟨token.topic, sampler.rng, sampler.stats⟩

def runCommit (commit : Change → Update M Unit) (change : Change) : Update (Bench M) Unit
  | ⟨sampler, doc, model⟩ =>
      match commit change model with
      | .ok _ model => .ok () ⟨sampler, doc, model⟩
      | .error fault model => .error fault ⟨sampler, doc, model⟩

def moveInCounter (topic : Nat) (delta : Int) : Update (Bench M) Unit
  | ⟨⟨rng, counter, stats, numTopics, mhStep, alphaSum, priors⟩, doc, model⟩ =>
      match TopicCounter.add topic delta counter with
      | .ok _ counter =>
          .ok () ⟨⟨rng, counter, stats, numTopics, mhStep, alphaSum, priors⟩, doc, model⟩
      | .error fault counter =>
          .error fault ⟨⟨rng, counter, stats, numTopics, mhStep, alphaSum, priors⟩, doc, model⟩

def writeTopic (index topic : Nat) : Update (Bench M) Unit
  | ⟨sampler, doc, model⟩ =>
      let stats := { sampler.stats with changed := sampler.stats.changed + 1 }
      .ok () ⟨{ sampler with stats := stats }, doc.setTopic index topic, model⟩

def applyChange (commit : Change → Update M Unit) (index : Nat) (change : Change) :
    Update (Bench M) Unit := do
  runCommit commit change
  moveInCounter change.old (-1)
  moveInCounter change.new 1
  writeTopic index change.new

@[inline] def visit (rule : Priors Float → TopicCounter → M → Nat → Nat → MoveRule)
    (commit : Change → Update M Unit) (proposals : AliasSlice) (index : Nat) (token : Token) :
    Update (Bench M) Unit
  | ⟨sampler, doc, model⟩ =>
      match resample rule proposals sampler doc model token with
      | none => .error (.breach .divisionByZero) ⟨sampler, doc, model⟩
      | some ⟨topic, rng, stats⟩ =>
          let bench : Bench M := ⟨{ sampler with rng := rng, stats := stats }, doc, model⟩
          if topic = token.topic then .ok () bench
          else applyChange commit index ⟨token.word, token.topic, topic⟩ bench

/-- Visits tokens from `index` on, at most `count`, up to the last word of the slice. Returns the
index of the first token that was not visited. -/
@[specialize] def visitFrom (rule : Priors Float → TopicCounter → M → Nat → Nat → MoveRule)
    (commit : Change → Update M Unit) (proposals : AliasSlice) (lastWord : Nat) :
    Nat → Nat → Update (Bench M) Nat
  | 0, index, bench => .ok index bench
  | count + 1, index, bench =>
      let token := bench.doc.tokens.getD index default
      if lastWord < token.word then .ok index bench
      else
        match visit rule commit proposals index token bench with
        | .ok _ bench => visitFrom rule commit proposals lastWord count (index + 1) bench
        | .error fault bench => .error fault bench

/-- The first slice starts every document anew. -/
def rewind (entry : SliceMeta) : Bench M → Bench M
  | ⟨sampler, doc, model⟩ => ⟨sampler, if entry.id = 0 then doc.resetCursor else doc, model⟩

def recount : Update (Bench M) Unit
  | ⟨⟨rng, counter, stats, numTopics, mhStep, alphaSum, priors⟩, doc, model⟩ =>
      match TopicCounter.rebuild doc numTopics counter with
      | .ok _ counter =>
          .ok () ⟨⟨rng, counter, stats, numTopics, mhStep, alphaSum, priors⟩, doc, model⟩
      | .error fault counter =>
          .error fault ⟨⟨rng, counter, stats, numTopics, mhStep, alphaSum, priors⟩, doc, model⟩

def finish (first next : Nat) : Bench M → Bench M
  | ⟨sampler, doc, model⟩ =>
      let stats := { sampler.stats with sampled := sampler.stats.sampled + (next - first) }
      ⟨{ sampler with stats := stats }, doc.setCursor next, model⟩

/-- Resamples the tokens of one slice and returns how many there were. -/
@[specialize] def sweep (rule : Priors Float → TopicCounter → M → Nat → Nat → MoveRule)
    (commit : Change → Update M Unit) (entry : SliceMeta) (proposals : AliasSlice) :
    Update (Bench M) Nat := fun bench =>
  match recount (rewind entry bench) with
  | .error fault bench => .error fault bench
  | .ok _ bench =>
      let first := bench.doc.cursor
      match visitFrom rule commit proposals entry.lastWord (bench.doc.size - first) first bench with
      | .error fault bench => .error fault bench
      | .ok next bench => .ok (next - first) (finish first next bench)

@[specialize] def sampleDoc (entry : SliceMeta) (proposals : AliasSlice) : Update (Bench M) Nat :=
  sweep trainingRule TopicCounts.commit entry proposals

/-- Resamples a document against a model that does not count it and stays as it is. -/
@[specialize] def inferDoc (entry : SliceMeta) (proposals : AliasSlice) : Update (Bench M) Nat :=
  sweep frozenRule (fun _ => pure ()) entry proposals

end Sampler

end LatentTopics
