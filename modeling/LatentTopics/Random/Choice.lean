import LatentTopics.Random.Gamma
import LatentTopics.Number

/-! Choices among numbered entries: a categorical draw by bisecting cumulative weights, and
Dirichlet draws of weights as gamma draws divided by their sum. -/
namespace LatentTopics.Random

structure Categorical where
  cumulative : Array Float
  deriving DecidableEq, Repr, Inhabited

namespace Categorical

/-- A weight that is negative or no number counts as zero. -/
def cumulate : List Float → Float → Array Float → Array Float
  | [], _, sums => sums
  | weight :: weights, sum, sums =>
      let sum := sum + (if 0.0 < weight then weight else 0.0)
      cumulate weights sum (sums.push sum)

def ofWeights (weights : List Float) : Categorical :=
  ⟨cumulate weights 0.0 #[]⟩

/-- The first entry whose cumulative weight exceeds a
uniform part of the total, at most the last. -/
def draw (choice : Categorical) (rng : Xorshift) : Nat × Xorshift :=
  let (u, rng) := rng.unit52
  let point := u * choice.cumulative.back?.getD 0.0
  let index := Search.split (fun i => choice.cumulative.getD i 0.0 ≤ point) choice.cumulative.size
  (min index (choice.cumulative.size - 1), rng)

end Categorical

structure Dirichlet where
  shapes : List GammaShape

namespace Dirichlet

def ofParameters? (parameters : List Float) : Option Dirichlet :=
  (parameters.mapM GammaShape.ofShape?).map Dirichlet.mk

def drawFrom : List GammaShape → List Float → Xorshift → Option (List Float × Xorshift)
  | [], drawn, rng => some (drawn, rng)
  | shape :: shapes, drawn, rng =>
      match shape.draw? rng with
      | some (x, rng) => drawFrom shapes (x :: drawn) rng
      | none => none

def draw? (dirichlet : Dirichlet) (rng : Xorshift) : Option (List Float × Xorshift) :=
  (drawFrom dirichlet.shapes [] rng).map fun (drawn, rng) =>
    let drawn := drawn.reverse
    let sum := drawn.foldl (· + ·) 0.0
    (drawn.map (· / sum), rng)

end Dirichlet

end LatentTopics.Random
