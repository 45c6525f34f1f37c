import LatentTopics.Fault
import LatentTopics.Number

/-! The settings of a run: priors, limits and what is reported how often. -/
namespace LatentTopics

structure Settings where
  numTopics : Nat := 100
  /-- The vocabulary size; zero leaves it to the corpus. -/
  numVocabs : Nat := 0
  alpha : Float := 0.01
  beta : Float := 0.01
  /-- Rounds of proposals for each token. -/
  mhStep : Nat := 1
  numIterations : Nat := 10
  loadFactor : Nat := 2
  numWorkers : Nat := 1
  /-- Cells of row memory of one model slice; zero is no limit. -/
  modelMaxCapacity : Nat := 0
  /-- Cells of alias memory of one slice; zero is no limit. -/
  aliasMaxCapacity : Nat := 0
  counterCapacity : Nat := 1024
  likelihoodInterval : Option Nat := none
  dumpInterval : Option Nat := none
  seed : Option Nat := none
  deriving DecidableEq, Repr, Inhabited

namespace Settings

def betaSum (settings : Settings) : Float :=
  settings.beta * floatOfNat settings.numVocabs

def alphaSum (settings : Settings) : Float :=
  settings.alpha * floatOfNat settings.numTopics

def isPowerOfTwo (number : Nat) : Bool :=
  number ≠ 0 && number.nextPowerOfTwo = number

/-- The first rule that the settings break. Sparse rows need
a load factor of two, the document counter a power of two. -/
def firstFault (settings : Settings) : Option SettingFault :=
  if settings.numTopics = 0 then some .noTopics
  else if 2147483647 < settings.numTopics then some (.tooManyTopics settings.numTopics)
  else if ¬(0.0 < settings.alpha) ∨ ¬(0.0 < settings.beta) then
    some (.priorNotPositive settings.alpha settings.beta)
  else if settings.mhStep = 0 then some .noRounds
  else if settings.loadFactor < 2 then some (.smallLoadFactor settings.loadFactor)
  else if settings.numWorkers = 0 then some .noWorkers
  else if !isPowerOfTwo settings.counterCapacity then
    some (.counterCapacity settings.counterCapacity)
  else if settings.likelihoodInterval = some 0 ∨ settings.dumpInterval = some 0 then
    some .zeroInterval
  else none

def validate (settings : Settings) : Except Fault Unit :=
  match settings.firstFault with
  | some cause => .error (.settings cause)
  | none => .ok ()

end Settings

end LatentTopics
