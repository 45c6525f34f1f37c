import LatentTopics.Number

/-! A 32-bit shift-register generator. Its state is never zero; a draw keeps the low 31 bits of the
next state. Every function returns the draw and the generator that follows it. -/
namespace LatentTopics

structure Xorshift where
  state : UInt32
  deriving DecidableEq, Repr, Inhabited

namespace Xorshift

def defaultSeed : UInt32 := 1234567

def ofSeed (seed : UInt32) : Xorshift :=
  ⟨if seed = 0 then defaultSeed else seed⟩

def scramble (x : UInt32) : UInt32 :=
  let x := x ^^^ (x <<< 13)
  let x := x ^^^ (x >>> 17)
  x ^^^ (x <<< 5)

@[inline] def next31 (rng : Xorshift) : Nat × Xorshift :=
  let state := scramble rng.state
  ((state &&& 0x7FFFFFFF).toNat, ⟨state⟩)

/-- A uniform float in [0, 1) with 31 bits. -/
@[inline] def unit31 (rng : Xorshift) : Float × Xorshift :=
  let (draw, rng) := rng.next31
  (floatOfNat draw * (1.0 / 2147483648.0), rng)

/-- A uniform integer below `bound`, scaled from a float; a
product that rounds up to the bound is taken one down. -/
@[inline] def below (bound : Nat) (rng : Xorshift) : Nat × Xorshift :=
  let (u, rng) := rng.unit31
  let scaled := (u * floatOfNat bound).toUInt32.toNat
  (if bound ≤ scaled then bound - 1 else scaled, rng)

/-- Two 31-bit draws cover all 32 bits, the first one the high end. -/
def next32 (rng : Xorshift) : UInt32 × Xorshift :=
  let (high, rng) := rng.next31
  let (low, rng) := rng.next31
  ((high.toUInt32 <<< 1) ^^^ (low.toUInt32 >>> 15), rng)

def next64 (rng : Xorshift) : UInt64 × Xorshift :=
  let (high, rng) := rng.next32
  let (low, rng) := rng.next32
  ((high.toUInt64 <<< 32) ||| low.toUInt64, rng)

def unit52 (rng : Xorshift) : Float × Xorshift :=
  let (bits, rng) := rng.next64
  (Float.ofBits (0x3FF0000000000000 ||| (bits &&& 0xFFFFFFFFFFFFF)) - 1.0, rng)

def openUnit (rng : Xorshift) : Float × Xorshift :=
  let (u, rng) := rng.unit52
  (u + 0.25 / 9007199254740992.0, rng)

/-- An independent stream, and the generator it was split from. -/
def fork (rng : Xorshift) : Xorshift × Xorshift :=
  let (seed, rng) := rng.next32
  (ofSeed seed, rng)

/-- The first draw that passes `accept`. A draw repeats only after a whole period, so that many
attempts decide whether one ever passes. -/
def firstAccepted (accept : UInt32 → Bool) : Nat → Xorshift → Option (UInt32 × Xorshift)
  | 0, _ => none
  | attempts + 1, rng =>
      let (draw, rng) := rng.next32
      if accept draw then some (draw, rng) else firstAccepted accept attempts rng

/-- An exactly uniform integer below `bound`: draws at or above the largest multiple of the bound
are rejected. There is none below zero. -/
def uniform? (bound : UInt32) (rng : Xorshift) : Option (Nat × Xorshift) :=
  if bound = 0 then none
  else
    let zone := 0xFFFFFFFF - 0xFFFFFFFF % bound
    (firstAccepted (· < zone) 4294967295 rng).map fun (draw, rng) => ((draw % bound).toNat, rng)

end Xorshift

end LatentTopics
