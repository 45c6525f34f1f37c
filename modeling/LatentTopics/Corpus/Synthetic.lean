import LatentTopics.Corpus.Bag
import LatentTopics.Random.Choice

/-! Corpora drawn from the generative process: topics are Dirichlet draws of
word weights, a document is a Dirichlet draw of topic weights and a log-normal
number of tokens, and a token draws its topic and then its word. -/
namespace LatentTopics.Synthetic

open LatentTopics.Random

structure Shape where
  numDocs : Nat
  /-- Mean and deviation of the logarithm of a document's length. -/
  mean : Float
  deviation : Float

def drawTopics (words : Dirichlet) :
    Nat → Array Categorical → Xorshift → Except Fault (Array Categorical × Xorshift)
  | 0, topics, rng => .ok (topics, rng)
  | count + 1, topics, rng =>
      match words.draw? rng with
      | some (weights, rng) =>
          drawTopics words count (topics.push (Categorical.ofWeights weights)) rng
      | none => .error (.breach .endlessRejection)

def drawWords (topics : Array Categorical) (mixture : Categorical) :
    Nat → List Nat → Xorshift → Except Fault (List Nat × Xorshift)
  | 0, words, rng => .ok (words, rng)
  | count + 1, words, rng =>
      let (topic, rng) := mixture.draw rng
      match topics[topic]? with
      | none => .error (.breach .indexOutOfRange)
      | some choice =>
          let (word, rng) := choice.draw rng
          drawWords topics mixture count (word :: words) rng

def drawBag (shape : Shape) (topics : Array Categorical) (mixtures : Dirichlet) (rng : Xorshift) :
    Except Fault (Bag × Xorshift) :=
  match mixtures.draw? rng with
  | none => .error (.breach .endlessRejection)
  | some (weights, rng) =>
      match logNormal? shape.mean shape.deviation rng with
      | none => .error (.breach .endlessRejection)
      | some (length, rng) =>
          match drawWords topics (Categorical.ofWeights weights)
            length.ceil.toUInt64.toNat [] rng with
          | .error fault => .error fault
          | .ok (words, rng) => .ok (Bag.ofWords words, rng)

def drawBags (shape : Shape) (topics : Array Categorical) (mixtures : Dirichlet) :
    Nat → List Bag → Xorshift → Except Fault (List Bag × Xorshift)
  | 0, bags, rng => .ok (bags.reverse, rng)
  | count + 1, bags, rng =>
      match drawBag shape topics mixtures rng with
      | .error fault => .error fault
      | .ok (bag, rng) => drawBags shape topics mixtures count (bag :: bags) rng

/-- A corpus with a topic for every entry of `alpha` and a word for every entry of `beta`. All
entries must be positive and the deviation must not be negative. -/
def corpus (shape : Shape) (alpha beta : List Float) (rng : Xorshift) :
    Except Fault (List Bag × Xorshift) :=
  match Dirichlet.ofParameters? beta, Dirichlet.ofParameters? alpha with
  | some words, some mixtures =>
      if !(0.0 ≤ shape.deviation) then .error (.breach .invalidShape)
      else
        match drawTopics words alpha.length #[] rng with
        | .error fault => .error fault
        | .ok (topics, rng) => drawBags shape topics mixtures shape.numDocs [] rng
  | _, _ => .error (.breach .invalidShape)

end LatentTopics.Synthetic
