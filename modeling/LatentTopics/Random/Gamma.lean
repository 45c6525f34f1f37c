import LatentTopics.Fault
import LatentTopics.Random.Ziggurat

/-! Gamma draws of scale one. Shapes above one use a squeezed cube of a normal draw, smaller shapes
a draw of the shape plus one, made smaller by a power of a uniform draw. -/
namespace LatentTopics.Random

structure LargeShape where
  factor : Float
  offset : Float

namespace LargeShape

def ofShape (shape : Float) : LargeShape :=
  let d := shape - 1.0 / 3.0
  ⟨1.0 / (9.0 * d).sqrt, d⟩

def draw? (shape : LargeShape) : Nat → Xorshift → Option (Float × Xorshift)
  | 0, _ => none
  | attempts + 1, rng =>
      match standardNormal? rng with
      | none => none
      | some (x, rng) =>
          let w := 1.0 + shape.factor * x
          if w ≤ 0.0 then draw? shape attempts rng
          else
            let v := w * w * w
            let (u, rng) := rng.openUnit
            let q := x * x
            if u < 1.0 - 0.0331 * q * q || u.log < 0.5 * q + shape.offset * (1.0 - v + v.log) then
              some (shape.offset * v, rng)
            else draw? shape attempts rng

end LargeShape

inductive GammaShape where
  | one
  | small (inverse : Float) (raised : LargeShape)
  | large (shape : LargeShape)

namespace GammaShape

def ofShape? (shape : Float) : Option GammaShape :=
  if !(0.0 < shape) then none
  else if shape == 1.0 then some .one
  else if shape < 1.0 then some (.small (1.0 / shape) (LargeShape.ofShape (shape + 1.0)))
  else some (.large (LargeShape.ofShape shape))

def draw? (shape : GammaShape) (rng : Xorshift) : Option (Float × Xorshift) :=
  match shape with
  | .one => standardExponential? rng
  | .small inverse raised =>
      let (u, rng) := rng.openUnit
      (raised.draw? attemptLimit rng).map fun (x, rng) => (x * u.pow inverse, rng)
  | .large shape => shape.draw? attemptLimit rng

end GammaShape

end LatentTopics.Random
