import LatentTopics.Corpus.TopicCounter
import LatentTopics.Counts.Store

/-! The log-likelihood of the current assignments. -/
namespace LatentTopics.Likelihood

/-! The logarithm of the gamma function by a Lanczos sum with nine terms, and by reflection below
one half. It is no number at the poles. -/

def lanczosShift : Float := 7.0

def lanczosFirst : Float := 0.99999999999980993

def lanczosRest : List Float :=
  [676.5203681218851, -1259.1392167224028, 771.32342877765313, -176.61502916214059,
    12.507343278686905, -0.13857109526572012, 9.9843695780195716e-6, 1.5056327351493116e-7]

def pi : Float := 3.14159265358979323846264338327950288

def lanczosSum (x : Float) : List Float → Nat → Float → Float
  | [], _, sum => sum
  | c :: rest, i, sum => lanczosSum x rest (i + 1) (sum + c / (x + i.toFloat))

def logGammaUpper (argument : Float) : Float :=
  let x := argument - 1.0
  let t := x + lanczosShift + 0.5
  let sum := lanczosSum x lanczosRest 1 lanczosFirst
  0.5 * (2.0 * pi).log + (x + 0.5) * t.log - t + sum.log

def logGamma (x : Float) : Float :=
  if x.isNaN || (x ≤ 0.0 && x.floor == x) then 0.0 / 0.0
  else if x < 0.5 then (pi / (pi * x).sin.abs).log - logGammaUpper (1.0 - x)
  else logGammaUpper x

/-! The log-likelihood of the current assignments. The sums are built
from the nonzero counts and corrected for the zero ones, over any number
type and with any function in the place of the logarithm of gamma. -/

variable {F : Type} [Scalar F]

/-- The topic prior of documents, which does not depend on the prior of the training. -/
def docPrior : Float := 0.01

def addTerms (g : F → F) (prior : F) : List (Nat × Int) → F → Except Fault F
  | [], sum => .ok sum
  | (topic, count) :: pairs, sum =>
      if count < 0 then .error (.negativeCount topic count)
      else addTerms g prior pairs (sum + g (Scalar.ofInt count + prior))

def zeroTopics (numTopics entries : Nat) : Except Fault Nat :=
  if entries ≤ numTopics then .ok (numTopics - entries) else .error (.breach .subtraction)

def docNormalizer (g : F → F) (prior : F) (numTopics : Nat) : F :=
  g (Scalar.ofInt numTopics * prior) - Scalar.ofInt numTopics * g prior

def ofHistogram (g : F → F) (prior : F) (numTopics size : Nat) (pairs : List (Nat × Int)) :
    Except Fault F :=
  match addTerms g prior pairs (docNormalizer g prior numTopics) with
  | .error fault => .error fault
  | .ok sum =>
      match zeroTopics numTopics pairs.length with
      | .error fault => .error fault
      | .ok zeros =>
          .ok (sum + Scalar.ofInt zeros * g prior
            - g (Scalar.ofInt size + prior * Scalar.ofInt numTopics))

def ofDocument (doc : Document) (numTopics : Nat) : Update TopicCounter Float := fun counter =>
  match TopicCounter.rebuild doc numTopics counter with
  | .error fault counter => .error fault counter
  | .ok _ counter =>
      match ofHistogram logGamma docPrior numTopics doc.size counter.pairs with
      | .error fault => .error fault counter
      | .ok value => .ok value counter

/-- Adds the terms of one row; an empty row adds nothing. -/
def addRow (g : F → F) (beta : F) (numTopics : Nat) (row : Row) (sum : F) : Except Fault F :=
  let pairs := row.pairs
  match addTerms g beta pairs sum with
  | .error fault => .error fault
  | .ok sum =>
      if pairs.isEmpty then .ok sum
      else
        match zeroTopics numTopics pairs.length with
        | .error fault => .error fault
        | .ok zeros => .ok (sum + Scalar.ofInt zeros * g beta)

def addRows (g : F → F) (beta : F) (numTopics : Nat) : List (Nat × Row) → F → Except Fault F
  | [], sum => .ok sum
  | (_, row) :: rows, sum =>
      match addRow g beta numTopics row sum with
      | .error fault => .error fault
      | .ok sum => addRows g beta numTopics rows sum

def ofSlice (g : F → F) (beta : F) (slice : Slice) : Except Fault F :=
  addRows g beta slice.numTopics slice.rows (Scalar.ofInt 0)

def subtractTotals (g : F → F) (betaSum : F) : List Int → Nat → F → Except Fault F
  | [], _, sum => .ok sum
  | count :: counts, topic, sum =>
      if count < 0 then .error (.negativeCount topic count)
      else subtractTotals g betaSum counts (topic + 1) (sum - g (Scalar.ofInt count + betaSum))

/-- The terms of the topics, which count every word of the vocabulary. -/
def normalizer (g : F → F) (beta : F) (summary : Summary) (numVocabs : Nat) : Except Fault F :=
  if numVocabs = 0 then .error (.settings .emptyVocabulary)
  else
    let betaSum := beta * Scalar.ofInt numVocabs
    let topics : F := Scalar.ofInt summary.numTopics
    subtractTotals g betaSum summary.counts.toList 0
      (topics * (g betaSum - Scalar.ofInt numVocabs * g beta))

def addSlices (g : F → F) (beta : F) : List Slice → F → Except Fault F
  | [], sum => .ok sum
  | slice :: slices, sum =>
      match ofSlice g beta slice with
      | .error fault => .error fault
      | .ok value => addSlices g beta slices (sum + value)

def ofStore (g : F → F) (beta : F) (store : Store) (numVocabs : Nat) : Except Fault F :=
  match addSlices g beta store.slices.toList (Scalar.ofInt 0) with
  | .error fault => .error fault
  | .ok words =>
      match normalizer g beta store.summary numVocabs with
      | .error fault => .error fault
      | .ok topics => .ok (words + topics)

end LatentTopics.Likelihood
