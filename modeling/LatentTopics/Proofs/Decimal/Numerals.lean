import Mathlib
import LatentTopics.Decimal.Read

/-! Natural numbers as they are written. Digits after an optional plus sign are read as the number
that they stand for, leading zeros included, as long as it is at or below the limit; a text that is
refused is refused for the first thing that is wrong with it. -/
namespace LatentTopics.Decimal

inductive Signed : List Char → List Char → Prop where
  | plain {digits : List Char} (nonempty : digits ≠ []) (unsigned : digits.head? ≠ some '+') :
      Signed digits digits
  | plus {digits : List Char} (nonempty : digits ≠ []) : Signed ('+' :: digits) digits

structure Numeral (limit : Nat) (text : List Char) (number : Nat) : Prop where
  spelled : ∃ digits, Signed text digits ∧ (∀ c ∈ digits, c.isDigit) ∧
    Nat.ofDigitChars 10 digits 0 = number
  within : number ≤ limit

/-- What is wrong with a text first: it has no digits, a character
is none, or with a digit the number is above the limit. -/
inductive Misread (limit : Nat) : List Char → NumeralFault → Prop where
  | empty : Misread limit [] .empty
  | sign : Misread limit ['+'] .invalidDigit
  | character {text front back : List Char} {c : Char} (signed : Signed text (front ++ c :: back))
      (digits : ∀ other ∈ front, other.isDigit) (within : Nat.ofDigitChars 10 front 0 ≤ limit)
      (other : ¬ c.isDigit) :
      Misread limit text .invalidDigit
  | large {text front back : List Char} {c : Char} (signed : Signed text (front ++ c :: back))
      (digits : ∀ other ∈ front ++ [c], other.isDigit)
      (within : Nat.ofDigitChars 10 front 0 ≤ limit)
      (above : limit < Nat.ofDigitChars 10 (front ++ [c]) 0) : Misread limit text .tooLarge

variable {limit number : Nat} {text digits : List Char}

theorem digit?_eq (c : Char) :
    digit? c = if c.isDigit then some (c.toNat - '0'.toNat) else none := by
  have same : ('0' ≤ c ∧ c ≤ '9') ↔ c.isDigit = true := by
    simp only [Char.isDigit, Bool.and_eq_true, decide_eq_true_eq]
    rfl
  simp only [digit?, same]

theorem le_ofDigitChars (digits : List Char) (number : Nat) :
    number ≤ Nat.ofDigitChars 10 digits number := by
  induction digits generalizing number with
  | nil => rw [Nat.ofDigitChars_nil]
  | cons c digits ih =>
      rw [Nat.ofDigitChars_cons]
      have more := ih (10 * number + (c.toNat - '0'.toNat))
      omega

theorem naturalFrom_eq_ok (within : number ≤ limit) {value : Nat} :
    naturalFrom limit digits number = .ok value ↔
    (∀ c ∈ digits, c.isDigit) ∧ Nat.ofDigitChars 10 digits number = value ∧ value ≤ limit := by
  induction digits generalizing number with
  | nil =>
      rw [naturalFrom, Nat.ofDigitChars_nil, Except.ok.injEq]
      constructor
      · rintro rfl
        exact ⟨fun _ member => absurd member List.not_mem_nil, rfl, within⟩
      · exact fun ⟨_, same, _⟩ => same
  | cons c digits ih =>
      rw [naturalFrom, digit?_eq, Nat.ofDigitChars_cons, List.forall_mem_cons]
      by_cases digit : c.isDigit
      · rw [if_pos digit, Nat.mul_comm 10 number]
        dsimp only
        split
        · next above =>
          -- The number is above the limit already, and stays there.
          refine iff_of_false (fun read => by cases read) ?_
          rintro ⟨_, rfl, low⟩
          have := le_ofDigitChars digits (number * 10 + (c.toNat - '0'.toNat))
          omega
        · next below =>
          rw [ih (Nat.le_of_not_lt below)]
          exact and_congr_left fun _ => (and_iff_right digit).symm
      · rw [if_neg digit]
        exact iff_of_false (fun read => by cases read) fun read => digit read.1.1

theorem naturalFrom_eq_error (within : number ≤ limit) {why : NumeralFault}
    (refused : naturalFrom limit digits number = .error why) :
    ∃ front c back, digits = front ++ c :: back ∧ (∀ other ∈ front, other.isDigit) ∧
      Nat.ofDigitChars 10 front number ≤ limit ∧ (¬ c.isDigit ∧ why = .invalidDigit ∨
        c.isDigit ∧ limit < Nat.ofDigitChars 10 (front ++ [c]) number ∧ why = .tooLarge) := by
  induction digits generalizing number with
  | nil => cases refused
  | cons c digits ih =>
      rw [naturalFrom, digit?_eq] at refused
      by_cases digit : c.isDigit
      · rw [if_pos digit] at refused
        dsimp only at refused
        split at refused
        · next above =>
          refine ⟨[], c, digits, rfl, fun _ member => absurd member List.not_mem_nil, within,
            .inr ⟨digit, ?_, ?_⟩⟩
          · rw [List.nil_append, Nat.ofDigitChars_cons, Nat.ofDigitChars_nil, Nat.mul_comm]
            exact above
          · exact (Except.error.inj refused).symm
        · next below =>
          obtain ⟨front, stop, back, rfl, before, low, cause⟩ := ih (Nat.le_of_not_lt below) refused
          refine ⟨c :: front, stop, back, rfl, List.forall_mem_cons.mpr ⟨digit, before⟩, ?_, ?_⟩
          · rwa [Nat.ofDigitChars_cons, Nat.mul_comm]
          · rwa [List.cons_append, Nat.ofDigitChars_cons, Nat.mul_comm 10 number]
      · rw [if_neg digit] at refused
        exact ⟨[], c, digits, rfl, fun _ member => absurd member List.not_mem_nil, within,
          .inl ⟨digit, (Except.error.inj refused).symm⟩⟩

theorem naturalFrom_append {front : List Char} (every : ∀ c ∈ front, c.isDigit)
    (within : Nat.ofDigitChars 10 front number ≤ limit) (rest : List Char) :
    naturalFrom limit (front ++ rest) number =
        naturalFrom limit rest (Nat.ofDigitChars 10 front number) := by
  induction front generalizing number with
  | nil => rfl
  | cons c front ih =>
      obtain ⟨digit, others⟩ := List.forall_mem_cons.mp every
      rw [Nat.ofDigitChars_cons] at within ⊢
      have low := Nat.le_trans (le_ofDigitChars front _) within
      rw [List.cons_append, naturalFrom, digit?_eq, if_pos digit, Nat.mul_comm number 10]
      dsimp only
      rw [if_neg (Nat.not_lt.mpr low), ih others within]

theorem natural_of_signed (signed : Signed text digits) :
    natural limit text = naturalFrom limit digits 0 := by
  cases signed with
  | plain nonempty unsigned =>
      obtain ⟨first, rest, rfl⟩ := List.exists_cons_of_ne_nil nonempty
      have other : first ≠ '+' := fun same => unsigned (congrArg some same)
      rw [natural]
      · exact List.cons_ne_nil first rest
      · exact fun lone => other (List.cons.inj lone).1
      · exact fun rest plus => other (List.cons.inj plus).1
  | plus nonempty =>
      obtain ⟨first, rest, rfl⟩ := List.exists_cons_of_ne_nil nonempty
      rfl

theorem signed_or (text : List Char) : text = [] ∨ text = ['+'] ∨ ∃ digits, Signed text digits := by
  match text with
  | [] => exact .inl rfl
  | c :: rest =>
      by_cases plus : c = '+'
      · subst plus
        by_cases lone : rest = []
        · exact .inr (.inl (congrArg _ lone))
        · exact .inr (.inr ⟨rest, .plus lone⟩)
      · refine .inr (.inr ⟨c :: rest, .plain (List.cons_ne_nil c rest) ?_⟩)
        rw [List.head?_cons, Ne, Option.some.injEq]
        exact plus

theorem natural_eq_ok : natural limit text = .ok number ↔ Numeral limit text number := by
  constructor
  · intro read
    rcases signed_or text with rfl | rfl | ⟨digits, signed⟩
    · cases read
    · cases read
    · rw [natural_of_signed signed, naturalFrom_eq_ok (Nat.zero_le limit)] at read
      obtain ⟨every, value, within⟩ := read
      exact ⟨⟨digits, signed, every, value⟩, within⟩
  · rintro ⟨⟨digits, signed, every, value⟩, within⟩
    rw [natural_of_signed signed, naturalFrom_eq_ok (Nat.zero_le limit)]
    exact ⟨every, value, within⟩

theorem misread_of_natural {why : NumeralFault} (refused : natural limit text = .error why) :
    Misread limit text why := by
  rcases signed_or text with rfl | rfl | ⟨digits, signed⟩
  · obtain rfl := Except.error.inj refused
    exact .empty
  · obtain rfl := Except.error.inj refused
    exact .sign
  · rw [natural_of_signed signed] at refused
    obtain ⟨front, c, back, rfl, before, low, cause⟩ :=
      naturalFrom_eq_error (Nat.zero_le limit) refused
    rcases cause with ⟨other, rfl⟩ | ⟨digit, above, rfl⟩
    · exact .character signed before low other
    · refine .large signed ?_ low above
      intro other member
      rcases List.mem_append.mp member with earlier | last
      · exact before other earlier
      · rwa [List.mem_singleton.mp last]

theorem natural_eq_error {why : NumeralFault} :
    natural limit text = .error why ↔ Misread limit text why := by
  constructor
  · exact misread_of_natural
  · intro misread
    cases misread with
    | empty => rfl
    | sign => rfl
    | character signed digits within other =>
        rw [natural_of_signed signed, naturalFrom_append digits within, naturalFrom, digit?_eq,
          if_neg other]
    | @large _ front back c signed digits within above =>
        have before : ∀ other ∈ front, other.isDigit :=
          fun other member => digits other (List.mem_append_left _ member)
        have digit : c.isDigit := digits c (List.mem_append_right _ (List.mem_singleton_self c))
        rw [Nat.ofDigitChars_append, Nat.ofDigitChars_cons, Nat.ofDigitChars_nil,
          Nat.mul_comm] at above
        rw [natural_of_signed signed, naturalFrom_append before within, naturalFrom, digit?_eq,
          if_pos digit]
        dsimp only
        rw [if_pos above]

theorem isDigit_of_mem_toDigits {c : Char} (member : c ∈ Nat.toDigits 10 number) : c.isDigit :=
  Nat.isDigit_of_mem_toDigits (by decide) (by decide) member

theorem numeral_toDigits (within : number ≤ limit) :
    Numeral limit (Nat.toDigits 10 number) number := by
  refine ⟨⟨_, .plain Nat.toDigits_ne_nil ?_, fun _ => isDigit_of_mem_toDigits,
    Nat.ofDigitChars_ten_toDigits⟩, within⟩
  intro plus
  have digit := isDigit_of_mem_toDigits (List.mem_of_head? plus)
  contradiction

end LatentTopics.Decimal
