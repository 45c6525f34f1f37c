import Mathlib
import LatentTopics.Corpus.BagLine
import LatentTopics.Proofs.Corpus.Bags
import LatentTopics.Proofs.Decimal.Numerals
import LatentTopics.Proofs.Text.Fields

/-! The grammar of corpus lines. A line is accepted exactly when each field after the label is a
numeral for a word, a colon and a numeral for a count, and its bag holds the sums of the counts;
otherwise the first field that is no such pair is reported. -/
namespace LatentTopics.BagLine

open Decimal Text

/-- A field for a word, with a colon between it and its count. -/
inductive Entry : List Char → Nat × Nat → Prop where
  | pair {first second : List Char} {word count : Nat} (before : ':' ∉ first) (after : ':' ∉ second)
      (isWord : Numeral 4294967295 first word)
      (isCount : Numeral 18446744073709551615 second count) :
      Entry (first ++ ':' :: second) (word, count)

/-- What is wrong with a field first: it has no colon or
several, its word is misread, or its count is. -/
inductive Offends : List Char → FieldFault → Prop where
  | notAPair {text : List Char} (shape : ∀ first second, text = first ++ ':' :: second →
      ':' ∈ first ∨ ':' ∈ second) :
      Offends text (.notAPair (String.ofList text))
  | badWord {first second : List Char} {why : NumeralFault} (before : ':' ∉ first)
      (after : ':' ∉ second) (misread : Misread 4294967295 first why) :
        Offends (first ++ ':' :: second) (.badWord (String.ofList first) why)
  | badCount {first second : List Char} {word : Nat} {why : NumeralFault} (before : ':' ∉ first)
      (after : ':' ∉ second)
      (isWord : Numeral 4294967295 first word) (misread : Misread 18446744073709551615 second why) :
      Offends (first ++ ':' :: second) (.badCount (String.ofList second) why)

variable {text label : List Char} {fields : List (List Char)}

theorem field_append {first second : List Char} (before : ':' ∉ first) (after : ':' ∉ second) :
    field (first ++ ':' :: second) =
      match natural32 first with
      | .error why => .error (.badWord (String.ofList first) why)
      | .ok word =>
          match natural64 second with
          | .error why => .error (.badCount (String.ofList second) why)
          | .ok count => .ok (word, count) := by
  rewrite [field, splitAt_eq_pair.mpr ⟨rfl, before, after⟩]
  rfl

theorem field_of_shape (shape : ∀ first second, text = first ++ ':' :: second → ':' ∈ first ∨
      ':' ∈ second) :
    field text = .error (.notAPair (String.ofList text)) := by
  rw [field]
  split
  · next first second split =>
    obtain ⟨same, before, after⟩ := splitAt_eq_pair.mp split
    exact absurd (shape first second same) (not_or.mpr ⟨before, after⟩)
  · rfl

theorem entry_or_offends (text : List Char) :
    (∃ entry, Entry text entry) ∨ ∃ cause, Offends text cause := by
  by_cases shape : ∀ first second, text = first ++ ':' :: second → ':' ∈ first ∨ ':' ∈ second
  · exact .inr ⟨_, .notAPair shape⟩
  · push Not at shape
    obtain ⟨first, second, rfl, before, after⟩ := shape
    cases isWord : natural 4294967295 first with
    | error why => exact .inr ⟨_, .badWord before after (natural_eq_error.mp isWord)⟩
    | ok word =>
        rw [natural_eq_ok] at isWord
        cases isCount : natural 18446744073709551615 second with
        | error why => exact .inr ⟨_, .badCount before after isWord (natural_eq_error.mp isCount)⟩
        | ok count => exact .inl ⟨_, .pair before after isWord (natural_eq_ok.mp isCount)⟩

theorem field_of_entry {entry : Nat × Nat} (isEntry : Entry text entry) :
    field text = .ok entry := by
  cases isEntry with
  | pair before after isWord isCount =>
      rw [field_append before after, natural32, natural_eq_ok.mpr isWord, natural64,
        natural_eq_ok.mpr isCount]

theorem field_of_offends {cause : FieldFault} (offends : Offends text cause) :
    field text = .error cause := by
  cases offends with
  | notAPair shape => exact field_of_shape shape
  | badWord before after misread =>
      rw [field_append before after, natural32, natural_eq_error.mpr misread]
  | badCount before after isWord misread =>
      rw [field_append before after, natural32, natural_eq_ok.mpr isWord, natural64,
        natural_eq_error.mpr misread]

theorem Offends.not_entry {cause : FieldFault} (offends : Offends text cause) :
    ¬ ∃ entry, Entry text entry := by
  rintro ⟨entry, isEntry⟩
  have read := field_of_entry isEntry
  rw [field_of_offends offends] at read
  cases read

section Runs

variable {entries : List (Nat × Nat)} {bag : Bag} {counts : Nat → Nat}

theorem exists_entries :
    (∃ entries, List.Forall₂ Entry fields entries) ↔
      ∀ text ∈ fields, ∃ entry, Entry text entry := by
  induction fields with
  | nil => exact iff_of_true ⟨[], .nil⟩ fun _ member => absurd member List.not_mem_nil
  | cons text fields ih =>
      rw [List.forall_mem_cons, ← ih]
      constructor
      · rintro ⟨entries, related⟩
        obtain ⟨entry, entries, isEntry, others, -⟩ := List.forall₂_cons_left_iff.mp related
        exact ⟨⟨entry, isEntry⟩, ⟨entries, others⟩⟩
      · rintro ⟨⟨entry, isEntry⟩, ⟨entries, others⟩⟩
        exact ⟨entry :: entries, .cons isEntry others⟩

theorem entries_or_offends (fields : List (List Char)) :
    (∀ text ∈ fields, ∃ entry, Entry text entry) ∨
    ∃ front text back cause, fields = front ++ text :: back ∧
      (∀ earlier ∈ front, ∃ entry, Entry earlier entry) ∧
      Offends text cause := by
  induction fields with
  | nil => exact .inl fun _ member => absurd member List.not_mem_nil
  | cons text fields ih =>
      rcases entry_or_offends text with isEntry | ⟨cause, offends⟩
      · rcases ih with every | ⟨front, stop, back, cause, rfl, before, offends⟩
        · exact .inl (List.forall_mem_cons.mpr ⟨isEntry, every⟩)
        · exact .inr ⟨text :: front, stop, back, cause, rfl,
            List.forall_mem_cons.mpr ⟨isEntry, before⟩, offends⟩
      · exact .inr ⟨[], text, fields, cause, rfl, fun _ member =>
          absurd member List.not_mem_nil, offends⟩

theorem addFields_append (read : List.Forall₂ Entry fields entries) (holds : bag.Holds counts)
    (rest : List (List Char)) :
    ∃ sums : Bag, sums.Holds (fun word => counts word + Bag.total entries word) ∧
      addFields (fields ++ rest) bag = addFields rest sums := by
  induction read generalizing bag counts with
  | nil => exact ⟨bag, holds, rfl⟩
  | @cons text entry fields entries isEntry others ih =>
      obtain ⟨sums, summed, run⟩ := ih (holds.add_or_keep entry.1 entry.2)
      refine ⟨sums, ?_, ?_⟩
      · simpa only [Bag.total_cons, Nat.add_assoc] using summed
      · rw [List.cons_append, addFields, field_of_entry isEntry]
        exact run

end Runs

variable {line : List Char} {number : Nat}

theorem exists_parse {entries : List (Nat × Nat)}
    (read : List.Forall₂ Entry (Text.fields line).tail entries) (number : Nat) :
    ∃ bag : Bag, bag.Holds (Bag.total entries) ∧ parse line number = .ok bag := by
  obtain ⟨bag, holds, run⟩ := addFields_append read Bag.holds_nil []
  refine ⟨bag, ?_, ?_⟩
  · simpa only [Nat.zero_add] using holds
  · rw [List.append_nil] at run
    rw [parse, run, addFields]

theorem parse_of_offends {front back : List (List Char)} {cause : FieldFault}
    (split : (Text.fields line).tail = front ++ text :: back)
    (before : ∀ earlier ∈ front, ∃ entry, Entry earlier entry) (offends : Offends text cause)
    (number : Nat) :
    parse line number = .error (.line number cause) := by
  obtain ⟨entries, read⟩ := exists_entries.mpr before
  obtain ⟨bag, -, run⟩ := addFields_append read Bag.holds_nil (text :: back)
  rw [parse, split, run, addFields, field_of_offends offends]

/-- What becomes of a line with these fields: a bag of the sums when those after the first are
entries, and otherwise a fault of the first one that is none. -/
structure Parses (line : List Char) (fields : List (List Char)) (number : Nat) : Prop where
  legible : (∃ bag, parse line number = .ok bag) ↔ ∀ text ∈ fields.tail, ∃ entry, Entry text entry
  accepted : ∀ bag, parse line number = .ok bag ↔
    ∃ entries, List.Forall₂ Entry fields.tail entries ∧ bag.Holds (Bag.total entries)
  refused : ∀ fault, parse line number = .error fault ↔
    ∃ front text back cause, fields.tail = front ++ text :: back ∧
      (∀ earlier ∈ front, ∃ entry, Entry earlier entry) ∧
      (¬ ∃ entry, Entry text entry) ∧ Offends text cause ∧ fault = .line number cause
  orderless : ∀ other others otherNumber, Splits other others → others.tail.Perm fields.tail →
    ∀ bag, parse line number = .ok bag → parse other otherNumber = .ok bag

theorem parse_eq_ok {bag : Bag} : parse line number = .ok bag ↔
    ∃ entries, List.Forall₂ Entry (Text.fields line).tail entries ∧
      bag.Holds (Bag.total entries) := by
  constructor
  · intro accepted
    rcases entries_or_offends (Text.fields line).tail with every | ⟨front, text, back, cause, split,
      before, offends⟩
    · obtain ⟨entries, read⟩ := exists_entries.mpr every
      obtain ⟨sums, holds, parsed⟩ := exists_parse read number
      rw [accepted] at parsed
      rw [← Except.ok.inj parsed] at holds
      exact ⟨entries, read, holds⟩
    · rw [parse_of_offends split before offends] at accepted
      cases accepted
  · rintro ⟨entries, read, holds⟩
    obtain ⟨sums, held, parsed⟩ := exists_parse read number
    rw [parsed, held.unique holds]

theorem parses_fields (line : List Char) (number : Nat) :
    Parses line (Text.fields line) number where
  legible := by
    rw [← exists_entries]
    constructor
    · rintro ⟨bag, accepted⟩
      obtain ⟨entries, read, -⟩ := parse_eq_ok.mp accepted
      exact ⟨entries, read⟩
    · rintro ⟨entries, read⟩
      obtain ⟨bag, -, parsed⟩ := exists_parse read number
      exact ⟨bag, parsed⟩
  accepted _ := parse_eq_ok
  refused fault := by
    constructor
    · intro refused
      rcases entries_or_offends (Text.fields line).tail with every | ⟨front, text, back, cause,
        split, before, offends⟩
      · obtain ⟨entries, read⟩ := exists_entries.mpr every
        obtain ⟨bag, -, parsed⟩ := exists_parse read number
        rw [refused] at parsed
        cases parsed
      · rw [parse_of_offends split before offends] at refused
        exact ⟨front, text, back, cause, split, before, offends.not_entry, offends,
          (Except.error.inj refused).symm⟩
    · rintro ⟨front, text, back, cause, split, before, -, offends, rfl⟩
      exact parse_of_offends split before offends number
  -- The entries are moved with their fields, and have the same sums.
  orderless other others otherNumber splits same bag accepted := by
    obtain rfl := splits.eq_fields
    obtain ⟨entries, read, holds⟩ := parse_eq_ok.mp accepted
    obtain ⟨moved, related, order⟩ := List.perm_comp_forall₂ same read
    rw [Bag.total_perm order.symm] at holds
    exact parse_eq_ok.mpr ⟨moved, related, holds⟩

section Writing

def spell (entry : Nat × Nat) : List Char :=
  Nat.toDigits 10 entry.1 ++ ':' :: Nat.toDigits 10 entry.2

def written (label : List Char) (entries : List (Nat × Nat)) : List Char :=
  label ++ entries.flatMap fun entry => ' ' :: spell entry

variable {entry : Nat × Nat} {entries : List (Nat × Nat)}

theorem colon_not_mem_toDigits (number : Nat) : ':' ∉ Nat.toDigits 10 number := by
  intro member
  have digit := isDigit_of_mem_toDigits member
  contradiction

theorem isBlank_of_isDigit {c : Char} (digit : c.isDigit) : isBlank c = false := by
  simp only [Char.isDigit, Bool.and_eq_true, decide_eq_true_eq, UInt32.le_iff_toNat_le] at digit
  have low : 48 ≤ c.toNat := digit.1
  have high : c.toNat ≤ 57 := digit.2
  simp [isBlank]
  omega

theorem entry_spell (wordFits : entry.1 ≤ 4294967295) (countFits : entry.2 ≤ 18446744073709551615) :
    Entry (spell entry) entry :=
  .pair (colon_not_mem_toDigits _) (colon_not_mem_toDigits _) (numeral_toDigits wordFits)
    (numeral_toDigits countFits)

theorem solid_spell (entry : Nat × Nat) : Solid (spell entry) := by
  refine ⟨List.append_ne_nil_of_right_ne_nil _ (List.cons_ne_nil _ _), ?_⟩
  intro c member
  rcases List.mem_append.mp member with inWord | later
  · exact isBlank_of_isDigit (isDigit_of_mem_toDigits inWord)
  · rcases List.mem_cons.mp later with rfl | inCount
    · rfl
    · exact isBlank_of_isDigit (isDigit_of_mem_toDigits inCount)

theorem splits_written (solid : Solid label) (entries : List (Nat × Nat)) :
    Splits (written label entries) (label :: entries.map spell) := by
  induction entries generalizing label with
  | nil =>
      rw [written, List.flatMap_nil, List.append_nil]
      exact .last solid
  | cons entry entries ih => exact .field solid rfl (ih (solid_spell entry))

theorem parse_written {bag : Bag} (legal : bag.Legal) (solid : Solid label)
    (order : entries.Perm bag) (number : Nat) :
    parse (written label entries) number = .ok bag := by
  have read : List.Forall₂ Entry (entries.map spell) entries := by
    rw [List.forall₂_map_left_iff, List.forall₂_same]
    intro entry member
    obtain ⟨wordFits, countFits⟩ := legal.fits entry (order.mem_iff.mp member)
    exact entry_spell wordFits countFits
  rw [parse_eq_ok, ← (splits_written solid entries).eq_fields]
  refine ⟨entries, read, ?_⟩
  rw [Bag.total_perm order]
  exact Bag.holds_total legal.increasing legal.positive

end Writing

/-- Every line has its fields in one way, which decide what
it is parsed as, and written out a bag is read back. -/
theorem parse_grammar :
    (∀ line, ∃! fields, Splits line fields) ∧
    (∀ line fields number, Splits line fields → Parses line fields number) ∧
    ∀ (bag : Bag) label entries number, bag.Legal → Solid label → entries.Perm bag →
      parse (written label entries) number = .ok bag := by
  refine ⟨existsUnique_splits, ?_, ?_⟩
  · intro line fields number splits
    rw [splits.eq_fields]
    exact parses_fields line number
  · intro bag label entries number legal solid order
    exact parse_written legal solid order number

/-- A word that occurs twice, one that does not count, a
line that is refused and a bag that is read back. -/
theorem parse_grammar_sample :
    (∃ entries, List.Forall₂ Entry [['3', ':', '2'], ['7', ':', '0'],
        ['+', '3', ':', '0', '1']] entries ∧
      Bag.Holds [(3, 3)] (Bag.total entries)) ∧
    (∃ front text back cause, [['3', '-', '2'], ['x', ':', '1']] = front ++ text :: back ∧
      (∀ earlier ∈ front, ∃ entry, Entry earlier entry) ∧ (¬ ∃ entry, Entry text entry) ∧
      Offends text cause ∧
      Fault.line 4 (.notAPair (String.ofList ['3', '-', '2'])) = .line 4 cause) ∧
    parse (written ['0'] [(10, 1), (3, 2)]) 1 = .ok [(3, 2), (10, 1)] := by
  obtain ⟨-, parses, readBack⟩ := parse_grammar
  refine ⟨?_, ?_, ?_⟩
  · have line := parses ['0', ' ', '3', ':', '2', ' ', '7', ':', '0', '\t', '+', '3', ':', '0',
      '1'] _ 1 (splits_fields _)
    exact (line.accepted _).mp rfl
  · have line := parses [' ', '0', ' ', '3', '-', '2', ' ', 'x', ':', '1'] _ 4 (splits_fields _)
    exact (line.refused _).mp rfl
  · exact readBack _ _ _ _ ⟨by decide, by decide, by decide⟩ ⟨by decide,
      List.forall_mem_singleton.mpr rfl⟩ (.swap _ _ _)

end LatentTopics.BagLine
