import LatentTopics.Number

/-! Metropolis-Hastings acceptance. A chain at topic `s` accepts a proposed topic `t` with the ratio
of target and proposal weights, capped at one. The target leaves the token being resampled out of
all counts, the proposal weights count it. -/
namespace LatentTopics

/-- Counts of one topic: in the document, of the word, and in all. -/
structure Tally where
  doc : Int
  word : Int
  total : Int
  deriving DecidableEq, Repr, Inhabited

/-- Leaves out one token, if the tally is that of its topic. -/
@[inline] def Tally.exclude (own : Bool) (tally : Tally) : Tally :=
  if own then ⟨tally.doc - 1, tally.word - 1, tally.total - 1⟩ else tally

structure Priors (F : Type) where
  alpha : F
  beta : F
  betaSum : F
  deriving Repr, Inhabited

namespace Priors

variable {F : Type} [Scalar F]

@[inline] def docWeight (priors : Priors F) (tally : Tally) : F :=
  Scalar.ofInt tally.doc + priors.alpha

@[inline] def wordWeight (priors : Priors F) (tally : Tally) : F :=
  Scalar.ofInt tally.word + priors.beta

@[inline] def totalWeight (priors : Priors F) (tally : Tally) : F :=
  Scalar.ofInt tally.total + priors.betaSum

@[inline] def wordProposal (priors : Priors F) (tally : Tally) : F :=
  priors.wordWeight tally / priors.totalWeight tally

@[inline] def docProposal (priors : Priors F) (tally : Tally) : F :=
  priors.docWeight tally

/-- The ratio for a move from the topic of `s` to the topic of `t`, under tallies with the token
left out and weights of the two topics in the proposal. -/
@[inline] def ratio (priors : Priors F) (s t : Tally) (proposalOfS proposalOfT : F) : F :=
  let numerator := priors.docWeight t * priors.wordWeight t * priors.totalWeight s * proposalOfS
  let denominator := priors.docWeight s * priors.wordWeight s * priors.totalWeight t * proposalOfT
  numerator / denominator

/-- The probability of moving from topic `s` to topic `t` of a token whose own topic is `old`, for
tallies and proposal weights of topics. -/
@[inline] def acceptance (priors : Priors F) (tally : Nat → Tally) (proposal : Tally → F)
    (old s t : Nat) : F :=
  if s = t then Scalar.ofInt 1
  else
    let ofS := tally s
    let ofT := tally t
    Scalar.capAtOne
      (priors.ratio (ofS.exclude (s = old)) (ofT.exclude (t = old)) (proposal ofS) (proposal ofT))

/-- Against a frozen model a word proposal is weighed by the document alone. -/
@[inline] def frozenByDoc (priors : Priors F) (tally : Nat → Tally) (old s t : Nat) : F :=
  let ofS := (tally s).exclude (s = old)
  let ofT := (tally t).exclude (t = old)
  Scalar.capAtOne (priors.docWeight ofT / priors.docWeight ofS)

/-- Against a frozen model a document proposal is weighed by
the word, whose counts do not hold the token. -/
@[inline] def frozenByWord (priors : Priors F) (tally : Nat → Tally) (s t : Nat) : F :=
  let ofS := tally s
  let ofT := tally t
  Scalar.capAtOne
    ((priors.wordWeight ofT * priors.totalWeight ofS) /
      (priors.wordWeight ofS * priors.totalWeight ofT))

end Priors

end LatentTopics
