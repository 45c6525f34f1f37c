import LatentTopics.Random.Xorshift
import LatentTopics.Random.Ziggurat.Layers

/-! Normal and exponential draws by the ziggurat method: a draw that falls into the rectangle of its
layer is taken at once, one in the wedge beside it is compared with the density, and one in the base
layer is drawn from the tail. A rejected draw starts again. -/
namespace LatentTopics.Random

/-- Attempts after which drawing is given up; each one succeeds with more than nine parts in ten. -/
def attemptLimit : Nat := 4294967295

namespace Ziggurat

structure Shape where
  symmetric : Bool
  edges : Array Float
  densities : Array Float
  density : Float → Float
  tail : Float → Xorshift → Option (Float × Xorshift)

def draw? (shape : Shape) : Nat → Xorshift → Option (Float × Xorshift)
  | 0, _ => none
  | attempts + 1, rng =>
      let (bits, rng) := rng.next64
      let layer := (bits &&& 0xFF).toNat
      let f := (bits >>> 11).toFloat / 9007199254740992.0
      let u := if shape.symmetric then 2.0 * f - 1.0 else f
      let x := u * shape.edges.getD layer 0.0
      let size := if shape.symmetric then x.abs else x
      if size < shape.edges.getD (layer + 1) 0.0 then some (x, rng)
      else if layer = 0 then shape.tail u rng
      else
        let upper := shape.densities.getD layer 0.0
        let lower := shape.densities.getD (layer + 1) 0.0
        let (v, rng) := rng.unit52
        if lower + (upper - lower) * v < shape.density x then some (x, rng)
        else draw? shape attempts rng

def normalTail : Float := 3.654152885361008796

def exponentialTail : Float := 7.697117470131050077

def normalTailFrom (u : Float) : Nat → Xorshift → Option (Float × Xorshift)
  | 0, _ => none
  | attempts + 1, rng =>
      let (a, rng) := rng.openUnit
      let (b, rng) := rng.openUnit
      let x := a.log / normalTail
      let y := b.log
      if -2.0 * y < x * x then normalTailFrom u attempts rng
      else some (if u < 0.0 then x - normalTail else normalTail - x, rng)

def normal : Shape where
  symmetric := true
  edges := normalEdges
  densities := normalDensities
  density x := (-x * x / 2.0).exp
  tail u rng := normalTailFrom u attemptLimit rng

def exponential : Shape where
  symmetric := false
  edges := exponentialEdges
  densities := exponentialDensities
  density x := (-x).exp
  tail _ rng :=
    let (u, rng) := rng.unit52
    some (exponentialTail - u.log, rng)

end Ziggurat

def standardNormal? (rng : Xorshift) : Option (Float × Xorshift) :=
  Ziggurat.draw? Ziggurat.normal attemptLimit rng

def standardExponential? (rng : Xorshift) : Option (Float × Xorshift) :=
  Ziggurat.draw? Ziggurat.exponential attemptLimit rng

def logNormal? (mean deviation : Float) (rng : Xorshift) : Option (Float × Xorshift) :=
  (standardNormal? rng).map fun (x, rng) => ((mean + deviation * x).exp, rng)

end LatentTopics.Random
