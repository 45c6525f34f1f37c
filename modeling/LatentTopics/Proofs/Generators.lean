import Mathlib
import LatentTopics.Random.Xorshift

/-! The states of a generator. A step is a permutation of all states that keeps zero apart, so that
every state but zero is the next one of another, and every draw is made in some state. -/
namespace LatentTopics.Xorshift

section Shifts

variable {width shift : Nat}

/-- The low bits stay, and each other bit is settled by one below it. -/
theorem shiftLeft_injective (some : 0 < shift) :
    Function.Injective fun bits : BitVec width => bits ^^^ bits <<< shift := by
  intro first second same
  apply BitVec.eq_of_getLsbD_eq
  intro index below
  induction index using Nat.strong_induction_on with
  | _ index ih =>
      have bit := congrArg (fun bits => bits.getLsbD index) same
      simp only [BitVec.getLsbD_xor, BitVec.getLsbD_shiftLeft] at bit
      by_cases low : index < shift
      · simpa [low] using bit
      · have lower := ih (index - shift) (by omega) (by omega)
        simpa [low, below, lower] using bit

theorem shiftRight_injective (some : 0 < shift) :
    Function.Injective fun bits : BitVec width => bits ^^^ bits >>> shift := by
  intro first second same
  apply BitVec.eq_of_getLsbD_eq
  intro index below
  induction left : width - index using Nat.strong_induction_on generalizing index with
  | _ left ih =>
      have bit := congrArg (fun bits => bits.getLsbD index) same
      simp only [BitVec.getLsbD_xor, BitVec.getLsbD_ushiftRight] at bit
      by_cases high : width ≤ shift + index
      · simpa [BitVec.getLsbD_of_ge _ _ high] using bit
      · have upper := ih (width - (shift + index)) (by omega) (shift + index) (by omega) rfl
        simpa [upper] using bit

end Shifts

theorem scramble_injective : Function.Injective scramble := by
  intro first second same
  have bits := congrArg UInt32.toBitVec same
  simp only [scramble, UInt32.toBitVec_xor, UInt32.toBitVec_shiftLeft,
    UInt32.toBitVec_shiftRight] at bits
  exact UInt32.toBitVec_inj.mp (shiftLeft_injective (by decide : 0 < 13)
    (shiftRight_injective (by decide : 0 < 17) (shiftLeft_injective (by decide : 0 < 5) bits)))

theorem scramble_surjective : Function.Surjective scramble :=
  Finite.injective_iff_surjective.mp scramble_injective

theorem scramble_zero : scramble 0 = 0 := by
  decide

theorem exists_step {state : UInt32} (nonzero : state ≠ 0) :
    ∃ before : Xorshift, before.state ≠ 0 ∧ scramble before.state = state := by
  obtain ⟨before, rfl⟩ := scramble_surjective state
  refine ⟨⟨before⟩, ?_, rfl⟩
  rintro rfl
  exact nonzero scramble_zero

theorem exists_next31 {value : Nat} (below : value < 2147483647) :
    ∃ rng : Xorshift, rng.state ≠ 0 ∧ rng.next31.1 % 2147483647 = value := by
  -- Zero is the remainder of the largest draw.
  obtain ⟨state, nonzero, drawn⟩ :
    ∃ state : UInt32, state ≠ 0 ∧ (state &&& 0x7FFFFFFF).toNat % 2147483647 = value := by
    rcases Nat.eq_zero_or_pos value with rfl | positive
    · exact ⟨0x7FFFFFFF, by decide, by decide⟩
    · have fits : (UInt32.ofNat value).toNat = value :=
        UInt32.toNat_ofNat_of_lt (by rw [UInt32.size]; omega)
      refine ⟨UInt32.ofNat value, ?_, ?_⟩
      · intro zero
        rw [zero] at fits
        exact absurd fits (Nat.ne_of_lt positive)
      · rw [UInt32.toNat_and, fits]
        have mask : (0x7FFFFFFF : UInt32).toNat = 2 ^ 31 - 1 := by decide
        rw [mask, Nat.and_two_pow_sub_one_eq_mod]
        omega
  obtain ⟨rng, some, step⟩ := exists_step nonzero
  refine ⟨rng, some, ?_⟩
  rw [next31, step]
  exact drawn

end LatentTopics.Xorshift
