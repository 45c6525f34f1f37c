import Mathlib
import LatentTopics.Number

/-! Signs of binary floating-point numbers. A number is unpacked into
its sign, mantissa and exponent, and packed again after each operation.
Packing keeps the sign of what is not zero, and so does rounding. -/
namespace LatentTopics.Floats

open Float.Model Float.Model.UnpackedFloat

/-- Above zero, infinity included. -/
inductive Above : UnpackedFloat → Prop where
  | infinity : Above (.infinity .positive)
  | finite (mantissa : Nat) (exponent : Int) (some : 0 < mantissa) :
      Above (.finite .positive mantissa exponent some)

theorem unpack_zero : (0.0 : Float).toModel.unpack = .zero .positive := by
  rfl

theorem lt_iff (x y : Float) :
    x < y ↔ UnpackedFloat.lt x.toModel.unpack y.toModel.unpack = true := by
  show Float.lt x y = true ↔ _
  rw [Float.lt, decide_eq_true_iff]
  rfl

theorem zero_lt_iff (x : Float) : 0.0 < x ↔ Above x.toModel.unpack := by
  rw [lt_iff, unpack_zero]
  cases x.toModel.unpack with
  | notANumber => exact ⟨fun less => absurd less (by decide), fun above => nomatch above⟩
  | infinity sign =>
      cases sign with
      | negative => exact ⟨fun less => absurd less (by decide), fun above => nomatch above⟩
      | positive => exact ⟨fun _ => .infinity, fun _ => rfl⟩
  | zero sign =>
      exact ⟨fun less => absurd less (by cases sign <;> decide), fun above => nomatch above⟩
  | finite sign mantissa exponent some =>
      cases sign with
      | negative => exact ⟨fun less => (by cases less), fun above => nomatch above⟩
      | positive => exact ⟨fun _ => .finite mantissa exponent some, fun _ => rfl⟩

section Rounding

variable {spec : Format} {sign : Sign} {mantissa : Nat} {exponent : Int}

theorem sign_of_above_round (above : Above (UnpackedFloat.round spec sign mantissa exponent)) :
    sign = .positive := by
  simp only [UnpackedFloat.round, roundWithAccuracy] at above
  split at above
  · cases above
  · cases above
    rfl

theorem pos_of_above_normalize {number : Int}
    (above : Above (UnpackedFloat.normalize spec number exponent sign)) : 0 < number := by
  rw [UnpackedFloat.normalize] at above
  split at above
  · cases sign_of_above_round above
  · cases above
  · next greater => exact Int.compare_eq_gt.mp greater

end Rounding

variable {spec : Format} {first second : UnpackedFloat}

theorem sign_of_above_packed {sign : Sign} {exponent : BitVec spec.exponentBits}
    {mantissa : BitVec spec.mantissaBitsWithoutImplicit}
    (above : Above (UnpackedFloat.unpack spec (packComponents spec sign exponent mantissa))) :
    sign = .positive := by
  simp only [UnpackedFloat.unpack, unpackSign_packComponents, Sign.ofBitVec_toBitVec] at above
  split at above
  · split at above <;> cases above
    rfl
  · split at above
    · split at above <;> cases above
      rfl
    · cases above
      rfl

theorem above_of_pack {number : UnpackedFloat}
    (above : Above (UnpackedFloat.unpack spec (UnpackedFloat.pack spec number))) :
    Above number := by
  cases number with
  | notANumber =>
      rw [UnpackedFloat.pack, unpack_packedNaN] at above
      cases above
  | zero sign =>
      rw [UnpackedFloat.pack, unpack_packedZero] at above
      cases above
  | infinity sign =>
      obtain rfl := sign_of_above_packed above
      exact .infinity
  | finite sign mantissa exponent some =>
      obtain rfl : sign = .positive := by
        rw [UnpackedFloat.pack] at above
        split at above
        · exact sign_of_above_packed above
        · split at above <;> exact sign_of_above_packed above
      exact .finite mantissa exponent some

theorem above_of_add (above : Above (UnpackedFloat.add spec first second)) :
    Above first ∨ Above second := by
  cases first with
  | notANumber => cases above
  | infinity sign =>
      cases second with
      | notANumber => cases above
      | infinity other =>
          rw [UnpackedFloat.add] at above
          split at above
          · exact Or.inl above
          · cases above
      | zero other => exact Or.inl above
      | finite other mantissa exponent some => exact Or.inl above
  | zero sign =>
      cases second with
      | notANumber => cases above
      | infinity other => exact Or.inr above
      | zero other =>
          rw [UnpackedFloat.add] at above
          split at above <;> cases above
      | finite other mantissa exponent some => exact Or.inr above
  | finite sign mantissa exponent some =>
      cases second with
      | notANumber => cases above
      | infinity other => exact Or.inr above
      | zero other => exact Or.inl above
      | finite other mantissa' exponent' some' =>
          cases sign with
          | positive => exact Or.inl (.finite mantissa exponent some)
          | negative =>
              cases other with
              | positive => exact Or.inr (.finite mantissa' exponent' some')
              | negative =>
                  have sum :
                      (0 : Int) <
                      -((decreaseExponent mantissa exponent (min exponent exponent')).1 : Int) +
                      -((decreaseExponent mantissa' exponent' (min exponent exponent')).1 : Int) :=
                    pos_of_above_normalize above
                  omega

theorem zero_lt_add {x y : Float} (above : 0.0 < x + y) : 0.0 < x ∨ 0.0 < y := by
  rw [zero_lt_iff] at above ⊢
  rw [zero_lt_iff]
  exact above_of_add (above_of_pack above)

theorem unpack_pack_zero (sign : Sign) : (Float.Model.pack (.zero sign)).unpack = .zero sign :=
  unpack_packedZero

/-- Zero divided by a positive number is zero, and stays zero when it is scaled. -/
theorem truncate_zero_share {total : Float} (positive : 0.0 < total) (finite : total.isFinite) :
    (0.0 / total * 2147483647.0).toUInt64.toNat = 0 := by
  obtain ⟨mantissa, exponent, some, unpacked⟩ : ∃ mantissa exponent some,
      total.toModel.unpack = .finite .positive mantissa exponent some := by
    have above := (zero_lt_iff total).mp positive
    have real : total.toModel.unpack.isFinite = true := finite
    generalize total.toModel.unpack = number at above real
    cases above with
    | infinity => cases real
    | finite mantissa exponent some => exact ⟨mantissa, exponent, some, rfl⟩
  have quotient : (0.0 / total).toModel = Float.Model.pack (.zero .positive) := by
    show Float.Model.pack (UnpackedFloat.div _ _ _) = _
    rw [unpacked, unpack_zero]
    rfl
  have product : (0.0 / total * 2147483647.0).toModel = Float.Model.pack (.zero .positive) := by
    show Float.Model.pack (UnpackedFloat.mul _ _ _) = _
    rw [quotient, unpack_pack_zero]
    rfl
  show (UnpackedFloat.toUInt64 (0.0 / total * 2147483647.0).toModel.unpack).toNat = 0
  rw [product, unpack_pack_zero]
  rfl

end LatentTopics.Floats
