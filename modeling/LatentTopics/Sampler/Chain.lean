import LatentTopics.Alias.Slice
import LatentTopics.Corpus.TopicCounter
import LatentTopics.Number

/-! The chain that resamples one token, and the statistics of what a sampler does. -/
namespace LatentTopics

/-! What a sampler did since its statistics were last set to zero. -/

structure SamplerStats where
  sampled : Nat
  changed : Nat
  accepted : Nat
  proposed : Nat
  deriving DecidableEq, Repr, Inhabited

namespace SamplerStats

def zero : SamplerStats :=
  ⟨0, 0, 0, 0⟩

instance : Add SamplerStats where
  add a b := ⟨a.sampled + b.sampled, a.changed + b.changed, a.accepted + b.accepted,
    a.proposed + b.proposed⟩

def acceptanceRate (stats : SamplerStats) : Float :=
  if stats.proposed = 0 then 0.0 else floatOfNat stats.accepted / floatOfNat stats.proposed

@[inline] def countProposal (accepted : Bool) (stats : SamplerStats) : SamplerStats :=
  { stats with
    accepted := if accepted then stats.accepted + 1 else stats.accepted
    proposed := stats.proposed + 1 }

end SamplerStats

/-! The chain that resamples one token: the topic it stands at, its generator and the statistics. A
round is a word proposal and a document proposal, each accepted or rejected by one more draw. -/

structure Chain where
  topic : Nat
  rng : Xorshift
  stats : SamplerStats
  deriving DecidableEq, Repr, Inhabited

structure MoveRule where
  byWord : (s t : Nat) → Float
  byDoc : (s t : Nat) → Float

namespace Chain

/-- Draws the topic of a random token of the document, or a
uniform topic in proportion to the prior's mass. -/
@[inline] def proposeFromDoc (doc : Document) (numTopics : Nat) (alphaSum : Float)
    (rng : Xorshift) : Nat × Xorshift :=
  let size := floatOfNat doc.size
  let (u, rng) := rng.unit31
  if u * (size + alphaSum) < size then
    let (index, rng) := rng.below (Number.word32 doc.size)
    ((doc.tokens.getD index default).topic, rng)
  else rng.below (Number.word32 numTopics)

@[inline] def decide (chain : Chain) (proposed : Nat) (draw probability : Float)
    (rng : Xorshift) : Chain :=
  let accepted := draw < probability
  ⟨if accepted then proposed else chain.topic, rng, chain.stats.countProposal accepted⟩

@[inline] def wordMove (proposals : AliasSlice) (word : Nat) (rule : MoveRule) (chain : Chain) :
    Option Chain :=
  match proposals.propose? word chain.rng with
  | none => none
  | some (proposed, rng) =>
      let (draw, rng) := rng.unit31
      some (chain.decide proposed draw (rule.byWord chain.topic proposed) rng)

@[inline] def docMove (doc : Document) (numTopics : Nat) (alphaSum : Float) (rule : MoveRule)
    (chain : Chain) : Chain :=
  let (proposed, rng) := proposeFromDoc doc numTopics alphaSum chain.rng
  let (draw, rng) := rng.unit31
  chain.decide proposed draw (rule.byDoc chain.topic proposed) rng

/-- Runs rounds; without a word proposal to draw there is none. -/
def rounds (proposals : AliasSlice) (word : Nat) (doc : Document) (numTopics : Nat)
    (alphaSum : Float) (rule : MoveRule) : Nat → Chain → Option Chain
  | 0, chain => some chain
  | count + 1, chain =>
      match chain.wordMove proposals word rule with
      | none => none
      | some chain =>
          rounds proposals word doc numTopics alphaSum rule count
            (chain.docMove doc numTopics alphaSum rule)

end Chain

end LatentTopics
