import LatentTopics.Alias.Quantize
import LatentTopics.Random.Xorshift

/-! Constant-time draws from integer masses. The values of a draw are divided among buckets of
nearly equal capacity, one for each entry; the first ones hold one value more when the division
leaves a rest. In a bucket the values below its threshold belong to its own entry and the others to
a partner. The masses are spread over the buckets from two lists, the entries with less mass than
their bucket holds and those with more. -/
namespace LatentTopics.Alias

structure Bucket where
  partner : Nat
  /-- The first value that belongs to the partner. -/
  threshold : Nat
  deriving DecidableEq, Repr, Inhabited

def capacity (index size : Nat) : Nat :=
  if index < totalMass % size then totalMass / size + 1 else totalMass / size

def start (index size : Nat) : Nat :=
  index * (totalMass / size) + min index (totalMass % size)

def bucketOf (value size : Nat) : Nat :=
  let height := totalMass / size
  let residue := totalMass % size
  let tall := residue * (height + 1)
  let index := if value < tall then value / (height + 1) else residue + (value - tall) / height
  min index (size - 1)

def full (size index : Nat) : Bucket :=
  ⟨index, start index size + capacity index size⟩

/-- Work on buckets: the entries whose mass is below their capacity and those whose mass is above
it, the last ones first, the mass that each entry still has, and the buckets. -/
structure Filling where
  low : List Nat
  high : List Nat
  masses : Array Nat
  buckets : Array Bucket
  deriving DecidableEq, Repr, Inhabited

namespace Filling

def sortIn (size index mass : Nat) (low high : List Nat) : List Nat × List Nat :=
  if mass < capacity index size then (index :: low, high)
  else if capacity index size < mass then (low, index :: high)
  else (low, high)

def sortOut (size : Nat) : List Nat → Nat → List Nat → List Nat → List Nat × List Nat
  | [], _, low, high => (low, high)
  | mass :: masses, index, low, high =>
      let (low, high) := sortIn size index mass low high
      sortOut size masses (index + 1) low high

def start (masses : List Nat) : Filling :=
  let size := masses.length
  let (low, high) := sortOut size masses 0 [] []
  ⟨low, high, masses.toArray, (Array.range size).map (full size)⟩

def step (size : Nat) : Filling → Filling
  | ⟨poor :: low, rich :: high, masses, buckets⟩ =>
      let mass := masses.getD poor 0
      let left := masses.getD rich 0 - (capacity poor size - mass)
      let (low, high) := sortIn size rich left low high
      ⟨low, high, masses.setIfInBounds rich left,
        buckets.setIfInBounds poor ⟨rich, Alias.start poor size + mass⟩⟩
  | filling => filling

def run (size : Nat) : Nat → Filling → Filling
  | 0, filling => filling
  | steps + 1, filling => run size steps (filling.step size)

/-- A step takes an entry off the lists, so that as many
steps as there are entries empty one of them. -/
def finish (size : Nat) (filling : Filling) : Filling :=
  filling.run size (filling.low.length + filling.high.length)

end Filling

def bucketsOfMasses (masses : List Nat) : Array Bucket :=
  ((Filling.start masses).finish masses.length).buckets

/-- The entry that a value falls to, among `size` buckets from `offset` on. -/
@[inline] def pick (buckets : Array Bucket) (offset size value : Nat) : Nat :=
  let index := bucketOf value size
  let bucket := buckets.getD (offset + index) default
  if value < bucket.threshold then index else bucket.partner

@[inline] def draw? (buckets : Array Bucket) (offset size : Nat) (rng : Xorshift) :
    Option (Nat × Xorshift) :=
  let (u, rng) := rng.next31
  if size = 0 then none else some (pick buckets offset size (u % totalMass), rng)

end LatentTopics.Alias
