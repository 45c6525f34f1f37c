import LatentTopics.Number

/-! Weights as integer masses that sum to a fixed total. Each weight first gets its share cut down
to an integer. What is missing is handed out one unit at a time in rounds over the entries of
positive weight, and what is too much is taken back in the same way from those that still have mass.
The rounds are not run one by one: whole rounds are settled by division. -/
namespace LatentTopics.Alias

/-- The sum of all masses, and the number of values of a draw. -/
def totalMass : Nat := 2147483647

structure Share where
  mass : Nat
  positive : Bool
  deriving DecidableEq, Repr, Inhabited

namespace Share

def live (share : Share) : Bool :=
  share.positive && 0 < share.mass

def massSum (shares : List Share) : Nat :=
  (shares.map mass).foldr (· + ·) 0

/-- Gives `each` units to every positive entry, and one more to the first `extra` of them. -/
def hand (each : Nat) : Nat → List Share → List Share
  | _, [] => []
  | extra, share :: shares =>
      if share.positive then
        let gain := if 0 < extra then each + 1 else each
        { share with mass := share.mass + gain } :: hand each (extra - 1) shares
      else share :: hand each extra shares

def cover (missing : Nat) (shares : List Share) : List Share :=
  let positives := shares.countP positive
  hand (missing / positives) (missing % positives) shares

def reduce (each : Nat) (shares : List Share) : List Share :=
  shares.map fun share => if share.live then { share with mass := share.mass - each } else share

def reduceFirst : Nat → List Share → List Share
  | _, [] => []
  | units, share :: shares =>
      if share.live && 0 < units then { share with mass := share.mass - 1 } :: reduceFirst
        (units - 1) shares
      else share :: reduceFirst units shares

/-- Takes `excess` units back, whole rounds at once; a turn takes at least one unit. -/
def relieve : Nat → Nat → List Share → List Share
  | 0, _, shares => shares
  | turns + 1, excess, shares =>
      let lives := shares.countP live
      if lives = 0 then shares
      else if excess < lives then reduceFirst excess shares
      else
        let reduced := reduce (excess / lives) shares
        relieve turns (excess - (massSum shares - massSum reduced)) reduced

def settle (shares : List Share) : List Share :=
  let sum := massSum shares
  if sum ≤ totalMass then cover (totalMass - sum) shares
  else relieve (sum - totalMass) (sum - totalMass) shares

end Share

def weightSum (weights : List Float) : Float :=
  weights.foldl (· + ·) 0.0

/-- A negative weight counts as zero, and so does one that is no number. -/
@[inline] def clamp (weight : Float) : Float :=
  if 0.0 < weight then weight else 0.0

@[inline] def shareOf (weight total : Float) : Share :=
  ⟨min ((weight / total) * 2147483647.0).toUInt64.toNat totalMass, 0.0 < weight⟩

/-- Without a positive and finite sum all entries weigh the same. -/
def shares (weights : List Float) : List Share :=
  let total := weightSum weights
  if 0.0 < total && total.isFinite then weights.map fun weight => shareOf (clamp weight) total
  else
    let total := floatOfNat weights.length
    weights.map fun _ => shareOf 1.0 total

def quantize (weights : List Float) : List Nat :=
  (Share.settle (shares weights)).map Share.mass

/-! The residue of cut masses, one unit at a time. An index goes round the
entries until nothing is missing from the total and nothing is too much;
entries that may not take a unit or have none to give back are passed over. -/

def Share.serve (residue : Int) (share : Share) : Share × Int :=
  if share.positive then
    if 0 < residue then ({ share with mass := share.mass + 1 }, residue - 1)
    else if 0 < share.mass then ({ share with mass := share.mass - 1 }, residue + 1)
    else (share, residue)
  else (share, residue)

structure Rounds where
  shares : List Share
  residue : Int
  index : Nat
  deriving DecidableEq, Repr, Inhabited

namespace Rounds

def start (shares : List Share) : Rounds :=
  ⟨shares, totalMass - Share.massSum shares, 0⟩

def turn? : Rounds → Option Rounds
  | ⟨shares, residue, index⟩ =>
      match shares[index]? with
      | none => none
      | some share =>
          let (share, residue) := share.serve residue
          some ⟨shares.set index share, residue, (index + 1) % shares.length⟩

def run? : Nat → Rounds → Option Rounds
  | 0, rounds => some rounds
  | turns + 1, rounds =>
      if rounds.residue = 0 then some rounds
      else
        match rounds.turn? with
        | none => none
        | some rounds => run? turns rounds

end Rounds

end LatentTopics.Alias
