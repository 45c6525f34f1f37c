import Mathlib

/-! Maps of words that take exclusive sums to exclusive sums. Such a map is known from its columns,
the images of the single bits. The columns of the map made twice come from its own, so that a map
can be made a huge number of times by as many doublings as the number has bits. -/
namespace LatentTopics.Columns

/-- The exclusive sum of the columns of all bits that are set. -/
def image : List Nat → Nat → Nat
  | [], _ => 0
  | column :: columns, bits => (bits % 2 * column) ^^^ image columns (bits / 2)

def twice (columns : List Nat) : List Nat :=
  columns.map (image columns)

/-- What becomes of the bits when the map is made a number
of times that has at most so many binary digits. -/
def repeated : Nat → Nat → List Nat → Nat → Nat
  | 0, _, _, bits => bits
  | digits + 1, times, columns, bits =>
      repeated digits (times / 2) (twice columns)
        (if times % 2 = 1 then image columns bits else bits)

def ofMap (step : UInt32 → UInt32) : List Nat :=
  (List.range' 0 32).map fun index => (step (UInt32.ofNat (1 <<< index))).toNat

theorem bit_mul_xor (first second column : Nat) :
    (first ^^^ second) % 2 * column = (first % 2 * column) ^^^ (second % 2 * column) := by
  rw [Nat.xor_mod_two_eq]
  rcases Nat.mod_two_eq_zero_or_one first with even | odd <;> rcases Nat.mod_two_eq_zero_or_one
    second with even' | odd'
  · simp [Nat.add_mod, even, even']
  · simp [Nat.add_mod, even, odd']
  · simp [Nat.add_mod, odd, even']
  · simp [Nat.add_mod, odd, odd']

theorem image_xor (columns : List Nat) (first second : Nat) :
    image columns (first ^^^ second) = image columns first ^^^ image columns second := by
  induction columns generalizing first second with
  | nil => exact (Nat.xor_self 0).symm
  | cons column columns ih =>
      rw [image, image, image, bit_mul_xor, Nat.xor_div_two, ih]
      ac_rfl

theorem image_zero (columns : List Nat) : image columns 0 = 0 := by
  have doubled := image_xor columns 0 0
  rwa [Nat.xor_self, Nat.xor_self] at doubled

theorem image_map (others columns : List Nat) (bits : Nat) :
    image (columns.map (image others)) bits = image others (image columns bits) := by
  induction columns generalizing bits with
  | nil => exact (image_zero others).symm
  | cons column columns ih =>
      rw [List.map_cons, image, image, image_xor, ih]
      congr 1
      rcases Nat.mod_two_eq_zero_or_one bits with even | odd
      · rw [even, Nat.zero_mul, Nat.zero_mul, image_zero]
      · rw [odd, Nat.one_mul, Nat.one_mul]

theorem image_twice (columns : List Nat) : image (twice columns) = (image columns)^[2] := by
  funext bits
  exact image_map columns columns bits

theorem repeated_eq (digits times : Nat) (columns : List Nat) (bits : Nat)
    (fits : times < 2 ^ digits) :
    repeated digits times columns bits = (image columns)^[times] bits := by
  induction digits generalizing times columns bits with
  | zero =>
      obtain rfl : times = 0 := Nat.lt_one_iff.mp fits
      rfl
  | succ digits ih =>
      have half : times / 2 < 2 ^ digits := by
        rw [pow_succ] at fits
        omega
      rw [repeated, ih _ _ _ half, image_twice, ← Function.iterate_mul]
      rcases Nat.mod_two_eq_zero_or_one times with even | odd
      · have whole : 2 * (times / 2) = times := by omega
        rw [even, if_neg Nat.zero_ne_one, whole]
      · have whole : 2 * (times / 2) + 1 = times := by omega
        rw [odd, if_pos rfl, ← Function.iterate_succ_apply, Nat.succ_eq_add_one, whole]

theorem shiftLeft_split (bits start : Nat) :
    bits <<< start = ((bits % 2) <<< start) ^^^ ((bits / 2) <<< (start + 1)) := by
  have low : (bits % 2 ^^^ 2 * (bits / 2)) % 2 = bits % 2 := by
    rw [Nat.xor_mod_two_eq, Nat.add_mul_mod_self_left, Nat.mod_mod]
  have high : (bits % 2 ^^^ 2 * (bits / 2)) / 2 = bits / 2 := by
    rw [Nat.xor_div_two, Nat.mul_div_cancel_left _ Nat.two_pos,
      Nat.div_eq_of_lt (Nat.mod_lt bits Nat.two_pos), Nat.zero_xor]
  have split : bits % 2 ^^^ 2 * (bits / 2) = bits := by
    rw [← Nat.div_add_mod (bits % 2 ^^^ 2 * (bits / 2)) 2, low, high, Nat.div_add_mod]
  have doubled : 2 * (bits / 2) = (bits / 2) <<< 1 := by
    rw [Nat.shiftLeft_eq, pow_one, Nat.mul_comm]
  rw [doubled] at split
  rw [Nat.add_comm start 1, Nat.shiftLeft_add, ← Nat.shiftLeft_xor_distrib, split]

section Additive

variable {step : UInt32 → UInt32} (additive : ∀ first second, step (first ^^^ second) =
  step first ^^^ step second)

include additive

theorem additive_zero : step 0 = 0 := by
  have doubled := additive 0 0
  rwa [UInt32.xor_self, UInt32.xor_self] at doubled

theorem image_bits (count start bits : Nat) (fits : bits < 2 ^ count) :
    image ((List.range' start count).map fun index =>
        (step (UInt32.ofNat (1 <<< index))).toNat) bits =
      (step (UInt32.ofNat (bits <<< start))).toNat := by
  induction count generalizing start bits with
  | zero =>
      obtain rfl : bits = 0 := Nat.lt_one_iff.mp fits
      have zero : UInt32.ofNat (0 <<< start) = 0 := by
        rw [Nat.zero_shiftLeft]
        rfl
      rw [zero, additive_zero additive]
      rfl
  | succ count ih =>
      have half : bits / 2 < 2 ^ count := by
        rw [pow_succ] at fits
        omega
      rw [List.range'_succ, List.map_cons, image, ih _ _ half, shiftLeft_split bits start,
        UInt32.ofNat_xor, additive, UInt32.toNat_xor]
      congr 1
      rcases Nat.mod_two_eq_zero_or_one bits with even | odd
      · have zero : UInt32.ofNat (0 <<< start) = 0 := by
          rw [Nat.zero_shiftLeft]
          rfl
        rw [even, zero, additive_zero additive, Nat.zero_mul]
        rfl
      · rw [odd, Nat.one_mul]

theorem image_ofMap (word : UInt32) : image (ofMap step) word.toNat = (step word).toNat := by
  rw [ofMap, image_bits additive 32 0 word.toNat word.toNat_lt, Nat.shiftLeft_zero,
    UInt32.ofNat_toNat]

theorem repeated_ofMap {digits times : Nat} (fits : times < 2 ^ digits) (word : UInt32) :
    repeated digits times (ofMap step) word.toNat = (step^[times] word).toNat := by
  have semiconj : Function.Semiconj UInt32.toNat step (image (ofMap step)) :=
    fun word => (image_ofMap additive word).symm
  rw [repeated_eq digits times _ _ fits]
  exact (semiconj.iterate_right times word).symm

end Additive

end LatentTopics.Columns
