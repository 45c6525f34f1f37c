import Mathlib
import LatentTopics.Proofs.Generators
import LatentTopics.Proofs.Random.Columns

/-! The course of a generator. A step keeps exclusive sums, so that the state after any number of
steps can be computed. The first state that a step leads back to is reached after 2^32 - 1 steps,
which is the number of states other than zero; so one cycle holds them all, and whatever is drawn,
split off or seeded anew stays in it. -/
namespace LatentTopics.Xorshift

open Function

def cycleLength : Nat := 4294967295

def cycleFactors : List Nat := [3, 5, 17, 257, 65537]

def next (rng : Xorshift) : Xorshift := rng.next31.2

/-- What the draws from a generator go through: after the length of the cycle, or a multiple of it,
and at no other time, all comes again, and until then every state but zero is met once. -/
structure FullCycle (first : Xorshift) : Prop where
  periods : ∀ period, (∀ draws, next^[draws + period] first = next^[draws] first) ↔
    cycleLength ∣ period
  visits : ∀ state : UInt32, state ≠ 0 → ∃! draws, draws < cycleLength ∧
    (next^[draws] first).state = state

inductive Call where
  | next31
  | unit31
  | below (bound : Nat)
  | next32
  | reseed (seed : UInt32)
  deriving DecidableEq, Repr

def Call.left : Call → Xorshift → Xorshift
  | .next31, rng => rng.next31.2
  | .unit31, rng => rng.unit31.2
  | .below bound, rng => (rng.below bound).2
  | .next32, rng => rng.next32.2
  | .reseed seed, _ => ofSeed seed

/-- What may be asked of generators. A new one has a seed,
which may be the draw of a generator of another kind. -/
inductive Request where
  | new (seed : UInt32)
  | ask (index : Nat) (call : Call)
  | fork (index : Nat)
  deriving DecidableEq, Repr

/-- New generators come last. Without a generator at the index nothing is done. -/
def Request.run : Request → List Xorshift → List Xorshift
  | .new seed, streams => streams ++ [ofSeed seed]
  | .ask index call, streams => streams.modify index call.left
  | .fork index, streams =>
      match streams[index]? with
      | some rng => streams.set index rng.fork.2 ++ [rng.fork.1]
      | none => streams

def runAll : List Request → List Xorshift → List Xorshift
  | [], streams => streams
  | request :: requests, streams => runAll requests (request.run streams)

section Streams

def Alive (rng : Xorshift) : Prop :=
  rng.state ≠ 0

variable {rng : Xorshift}

theorem alive_ofSeed (seed : UInt32) : Alive (ofSeed seed) := by
  rw [Alive, ofSeed]
  split
  · decide
  · next nonzero => exact nonzero

theorem Alive.next31 (alive : Alive rng) : Alive rng.next31.2 := by
  intro zero
  exact alive (scramble_injective (zero.trans scramble_zero.symm))

theorem Alive.next32 (alive : Alive rng) : Alive rng.next32.2 :=
  alive.next31.next31

/-- One call: every draw makes steps, and a seed of zero is replaced. -/
theorem Alive.left (alive : Alive rng) (call : Call) : Alive (call.left rng) := by
  cases call with
  | next31 => exact alive.next31
  | unit31 => exact alive.next31
  | below bound => exact alive.next31
  | next32 => exact alive.next32
  | reseed seed => exact alive_ofSeed seed

theorem alive_run (request : Request) {streams : List Xorshift}
    (alive : ∀ rng ∈ streams, Alive rng) :
    ∀ rng ∈ request.run streams, Alive rng := by
  cases request with
  | new seed =>
      intro rng member
      rcases List.mem_append.mp member with old | new
      · exact alive rng old
      · exact List.mem_singleton.mp new ▸ alive_ofSeed seed
  | ask index call =>
      intro rng member
      obtain ⟨place, here⟩ := List.getElem?_of_mem member
      rw [Request.run, List.getElem?_modify] at here
      obtain ⟨old, there, rfl⟩ := Option.map_eq_some_iff.mp here
      have oldAlive := alive old (List.mem_of_getElem? there)
      split
      · exact oldAlive.left call
      · exact oldAlive
  | fork index =>
      rw [Request.run]
      split
      · next rng here =>
        have parent := alive rng (List.mem_of_getElem? here)
        intro other member
        rcases List.mem_append.mp member with old | new
        · rcases List.mem_or_eq_of_mem_set old with kept | rfl
          · exact alive other kept
          · exact parent.next32
        · exact List.mem_singleton.mp new ▸ alive_ofSeed _
      · exact alive

theorem alive_runAll (requests : List Request) {streams : List Xorshift}
    (alive : ∀ rng ∈ streams, Alive rng) :
    ∀ rng ∈ runAll requests streams, Alive rng := by
  induction requests generalizing streams with
  | nil => exact alive
  | cons request requests ih => exact ih (alive_run request alive)

end Streams

section Period

def addLeft (shift bits : UInt32) : UInt32 := bits ^^^ bits <<< shift

def addRight (shift bits : UInt32) : UInt32 := bits ^^^ bits >>> shift

theorem scramble_eq (bits : UInt32) : scramble bits = addLeft 5 (addRight 17 (addLeft 13 bits)) :=
  rfl

theorem addLeft_xor (shift first second : UInt32) :
    addLeft shift (first ^^^ second) = addLeft shift first ^^^ addLeft shift second := by
  simp only [addLeft, UInt32.shiftLeft_xor]
  ac_rfl

theorem addRight_xor (shift first second : UInt32) :
    addRight shift (first ^^^ second) = addRight shift first ^^^ addRight shift second := by
  simp only [addRight, UInt32.shiftRight_xor]
  ac_rfl

theorem scramble_xor (first second : UInt32) :
    scramble (first ^^^ second) = scramble first ^^^ scramble second := by
  simp only [scramble_eq, addLeft_xor, addRight_xor]

theorem iterate_one_eq {times : Nat} (fits : times < 2 ^ 32) :
    (scramble^[times] 1).toNat = Columns.repeated 32 times (Columns.ofMap scramble) 1 :=
  (Columns.repeated_ofMap scramble_xor fits 1).symm

theorem cycleLength_eq : cycleLength = cycleFactors.prod := by
  decide

theorem prime_of_mem_cycleFactors {factor : Nat} (member : factor ∈ cycleFactors) :
    factor.Prime := by
  simp only [cycleFactors, List.mem_cons, List.not_mem_nil, or_false] at member
  rcases member with rfl | rfl | rfl | rfl | rfl <;> norm_num

/-- Some thousand exclusive sums for each number of steps. -/
theorem repeated_scramble : Columns.repeated 32 cycleLength (Columns.ofMap scramble) 1 = 1 ∧
    ∀ factor ∈ cycleFactors, Columns.repeated 32 (cycleLength / factor)
        (Columns.ofMap scramble) 1 ≠ 1 := by
  decide +kernel

theorem isPeriodicPt_one : IsPeriodicPt scramble cycleLength 1 := by
  apply UInt32.toNat_inj.mp
  rw [iterate_one_eq (by decide), repeated_scramble.1]
  rfl

theorem not_isPeriodicPt_one {factor : Nat} (member : factor ∈ cycleFactors) :
    ¬ IsPeriodicPt scramble (cycleLength / factor) 1 := by
  intro returns
  have fits : cycleLength / factor < 2 ^ 32 := (Nat.div_le_self _ _).trans_lt (by decide)
  have state : (scramble^[cycleLength / factor] 1).toNat = 1 := congrArg UInt32.toNat returns
  rw [iterate_one_eq fits] at state
  exact repeated_scramble.2 factor member state

/-- A shorter period would divide the length of the cycle without one of its prime factors. -/
theorem minimalPeriod_one : minimalPeriod scramble 1 = cycleLength := by
  obtain ⟨rest, product⟩ := isPeriodicPt_one.minimalPeriod_dvd
  by_contra shorter
  have more : rest ≠ 1 := by
    rintro rfl
    exact shorter (product.trans (Nat.mul_one _)).symm
  obtain ⟨prime, isPrime, quotient, rfl⟩ := Nat.exists_prime_and_dvd more
  have divides : prime ∣ cycleFactors.prod := by
    rw [← cycleLength_eq, product]
    exact (Nat.dvd_mul_right prime quotient).mul_left _
  obtain ⟨factor, member, inFactor⟩ := isPrime.prime.dvd_prod_iff.mp divides
  obtain rfl := (Nat.prime_dvd_prime_iff_eq isPrime (prime_of_mem_cycleFactors member)).mp inFactor
  apply not_isPeriodicPt_one member
  have reduced : cycleLength / prime = minimalPeriod scramble 1 * quotient := by
    rw [product, Nat.mul_left_comm, Nat.mul_div_cancel_left _ isPrime.pos]
  rw [reduced]
  exact (isPeriodicPt_minimalPeriod scramble 1).mul_const quotient

theorem card_states : Fintype.card {state : UInt32 // state ≠ 0} = cycleLength := by
  rw [Fintype.card_subtype_compl, Fintype.card_subtype_eq,
    ← FinEnum.card_eq_fintypeCard (α := UInt32), FinEnum.card_UInt32]
  rfl

theorem iterate_ne_zero {state : UInt32} (nonzero : state ≠ 0) (steps : Nat) :
    scramble^[steps] state ≠ 0 := by
  induction steps with
  | zero => exact nonzero
  | succ steps ih =>
      rw [iterate_succ_apply']
      intro zero
      exact ih (scramble_injective (zero.trans scramble_zero.symm))

/-- As many different states as there are leave none out. -/
theorem existsUnique_steps {first : UInt32} (nonzero : first ≠ 0)
    (period : minimalPeriod scramble first = cycleLength) {state : UInt32} (other : state ≠ 0) :
    ∃! steps, steps < cycleLength ∧ scramble^[steps] first = state := by
  let visited (steps : Fin cycleLength) : {state : UInt32 // state ≠ 0} :=
    ⟨scramble^[steps] first, iterate_ne_zero nonzero steps⟩
  have once : ∀ steps steps' : Nat, steps < cycleLength → steps' < cycleLength →
      scramble^[steps] first = scramble^[steps'] first → steps = steps' := by
    intro steps steps' below below' same
    exact (iterate_eq_iterate_iff_of_lt_minimalPeriod (period ▸ below) (period ▸ below')).mp same
  have injective : Injective visited := fun steps steps' same =>
    Fin.ext (once steps steps' steps.isLt steps'.isLt (congrArg Subtype.val same))
  have surjective : Surjective visited :=
    ((Fintype.bijective_iff_injective_and_card visited).mpr ⟨injective,
      (Fintype.card_fin _).trans card_states.symm⟩).surjective
  obtain ⟨steps, reached⟩ := surjective ⟨state, other⟩
  have here : scramble^[steps] first = state := congrArg Subtype.val reached
  exact ⟨steps, ⟨steps.isLt, here⟩, fun steps' visit =>
    once steps' steps visit.1 steps.isLt (visit.2.trans here.symm)⟩

theorem minimalPeriod_eq {state : UInt32} (nonzero : state ≠ 0) :
    minimalPeriod scramble state = cycleLength := by
  obtain ⟨steps, ⟨_, rfl⟩, _⟩ := existsUnique_steps (by decide) minimalPeriod_one nonzero
  rw [minimalPeriod_apply_iterate (mk_mem_periodicPts (by decide) isPeriodicPt_one),
    minimalPeriod_one]

end Period

theorem state_iterate (draws : Nat) (rng : Xorshift) :
    (next^[draws] rng).state = scramble^[draws] rng.state := by
  have semiconj : Semiconj state next scramble := fun _ => rfl
  exact semiconj.iterate_right draws rng

theorem Alive.fullCycle {rng : Xorshift} (alive : Alive rng) : FullCycle rng := by
  constructor
  · intro period
    rw [← minimalPeriod_eq alive, ← isPeriodicPt_iff_minimalPeriod_dvd]
    constructor
    · intro again
      have first := congrArg state (again 0)
      rwa [state_iterate, state_iterate, Nat.zero_add] at first
    · intro returns draws
      have same : (next^[draws + period] rng).state = (next^[draws] rng).state := by
        rw [state_iterate, state_iterate, iterate_add_apply, returns]
      exact congrArg Xorshift.mk same
  · intro state other
    simp only [state_iterate]
    exact existsUnique_steps alive (minimalPeriod_eq alive) other

/-- Whatever is asked of generators, none of them comes to the state zero; and the draws from any
seed go through all other states, one cycle of them. -/
theorem states_cycle (requests : List Request) (seed : UInt32) :
    (∀ rng ∈ runAll requests [], rng.state ≠ 0) ∧ FullCycle (ofSeed seed) :=
  ⟨alive_runAll requests (fun _ member => absurd member List.not_mem_nil),
    (alive_ofSeed seed).fullCycle⟩

/-- Generators with a seed of zero, one of them split from another one. -/
theorem states_cycle_zero :
    let requests : List Request :=
      [.new 0, .ask 0 (.below 7), .fork 0, .ask 1 .next32, .ask 0 (.reseed 0)]
    ∃ rng ∈ runAll requests [], rng.state ≠ 0 ∧
      ∃! draws, draws < cycleLength ∧ (next^[draws] (ofSeed 0)).state = 4294967295 := by
  intro requests
  obtain ⟨alive, cycle⟩ := states_cycle requests 0
  have member : ofSeed 0 ∈ runAll requests [] := List.mem_cons_self
  exact ⟨ofSeed 0, member, alive _ member, cycle.visits _ (by decide)⟩

end LatentTopics.Xorshift
