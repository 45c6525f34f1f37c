/-! Numbers: how counts and ids are stored in 32 bits, the
arithmetic of weights, and the search among numbers in order. -/
namespace LatentTopics.Number

/-! Counts and ids are computed exactly and stored in 32 bits. Storing drops the high bits: a count
is read back as a signed number, an id as an unsigned one. -/

def narrow (count : Int) : Int :=
  (Int32.ofInt count).toInt

def word32 (id : Nat) : Nat :=
  id % 4294967296

theorem narrow_eq_bmod (count : Int) : narrow count = count.bmod 4294967296 :=
  Int32.toInt_ofInt

theorem narrow_eq_self {count : Int} (lower : -2147483648 ≤ count) (upper : count < 2147483648) :
    narrow count = count := by
  rw [narrow_eq_bmod, Int.bmod_def]
  omega

end LatentTopics.Number

/-! The arithmetic of weights, acceptance ratios and likelihoods. Formulas are written once over any
such type: binary floating point runs them, an exact field is where they are reasoned about. -/
namespace LatentTopics

class Scalar (F : Type) extends Add F, Sub F, Mul F, Div F, LT F where
  ofInt : Int → F
  decLt : DecidableLT F

instance Scalar.decidableLT (F : Type) [Scalar F] : DecidableLT F := Scalar.decLt

/-- The nearest double, for counts of at most 64 bits. -/
@[inline] def floatOfNat (count : Nat) : Float :=
  count.toUInt64.toFloat

@[inline] def floatOfInt : Int → Float
  | .ofNat count => floatOfNat count
  | .negSucc count => -floatOfNat (count + 1)

instance : Scalar Float where
  ofInt := floatOfInt
  decLt := Float.decLt

/-- The smaller of one and `x`, and one where they do not compare. -/
@[inline] def Scalar.capAtOne {F : Type} [Scalar F] (x : F) : F :=
  if x < Scalar.ofInt 1 then x else Scalar.ofInt 1

/-! Bisection. `split holds size` is the number of leading indices below `size` at which a predicate
holds, for a predicate that never holds again once it has failed. -/
namespace Search

/-- Bisects the indices from `first` on, `size` of them; a round at least halves what is left. -/
def splitFrom (holds : Nat → Bool) : Nat → Nat → Nat → Nat
  | 0, first, _ => first
  | rounds + 1, first, size =>
      if size = 0 then first
      else
        let half := size / 2
        if holds (first + half) then splitFrom holds rounds (first + half + 1) (size - half - 1)
        else splitFrom holds rounds first half

@[inline] def split (holds : Nat → Bool) (size : Nat) : Nat :=
  splitFrom holds size 0 size

@[inline] def find? (keys : Array Nat) (key : Nat) : Option Nat :=
  let index := split (fun i => keys.getD i 0 < key) keys.size
  if keys[index]? = some key then some index else none

end Search

end LatentTopics
