import Mathlib
import LatentTopics.Text.Lines

/-! Fields of a line and parts between separators, without the loops that collect them. A line is
made up of its fields and of blanks, and in one way only. -/
namespace LatentTopics.Text

structure Solid (field : List Char) : Prop where
  nonempty : field ≠ []
  unbroken : ∀ c ∈ field, isBlank c = false

/-- A line and its fields. Between two fields there is a blank at least. -/
inductive Splits : List Char → List (List Char) → Prop where
  | nil : Splits [] []
  | blank {c : Char} {line : List Char} {parts : List (List Char)} (blank : isBlank c = true)
      (splits : Splits line parts) :
      Splits (c :: line) parts
  | last {field : List Char} (solid : Solid field) : Splits field [field]
  | field {field : List Char} {c : Char} {line : List Char} {parts : List (List Char)}
      (solid : Solid field) (blank : isBlank c = true) (splits : Splits line parts) :
        Splits (field ++ c :: line) (field :: parts)

section Collecting

variable {c : Char}

theorem fieldsFrom_end (first : Char) (held : List Char) :
    fieldsFrom [] (first :: held) = [(first :: held).reverse] :=
  rfl

theorem fieldsFrom_of_solid (solid : isBlank c = false) (line held : List Char) :
    fieldsFrom (c :: line) held = fieldsFrom line (c :: held) := by
  cases held <;> exact if_neg (Bool.eq_false_iff.mp solid)

theorem fieldsFrom_gap (blank : isBlank c = true) (line : List Char) :
    fieldsFrom (c :: line) [] = fieldsFrom line [] :=
  if_pos blank

theorem fieldsFrom_of_blank (blank : isBlank c = true) (line : List Char) (first : Char)
    (held : List Char) :
    fieldsFrom (c :: line) (first :: held) = (first :: held).reverse :: fieldsFrom line [] :=
  if_pos blank

end Collecting

variable {line field : List Char} {parts : List (List Char)}

theorem Solid.of_reverse (nonempty : field ≠ []) (unbroken : ∀ c ∈ field, isBlank c = false) :
    Solid field.reverse :=
  ⟨fun empty => nonempty (List.reverse_eq_nil_iff.mp empty), fun c member =>
    unbroken c (List.mem_reverse.mp member)⟩

theorem splits_fieldsFrom (line : List Char) {held : List Char}
    (unbroken : ∀ c ∈ held, isBlank c = false) :
    Splits (held.reverse ++ line) (fieldsFrom line held) := by
  induction line generalizing held with
  | nil =>
      cases held with
      | nil => exact Splits.nil
      | cons first rest =>
          rw [List.append_nil, fieldsFrom_end]
          exact .last (.of_reverse (List.cons_ne_nil first rest) unbroken)
  | cons c line ih =>
      cases blank : isBlank c with
      | true =>
          have rest : Splits line (fieldsFrom line []) :=
            ih fun _ member => absurd member List.not_mem_nil
          cases held with
          | nil =>
              rw [fieldsFrom_gap blank]
              exact .blank blank rest
          | cons first held =>
              rw [fieldsFrom_of_blank blank]
              exact .field (.of_reverse (List.cons_ne_nil first held) unbroken) blank rest
      | false =>
          have longer : ∀ other ∈ c :: held, isBlank other = false :=
            List.forall_mem_cons.mpr ⟨blank, unbroken⟩
          have rest := ih longer
          rw [List.reverse_cons, List.append_assoc, List.singleton_append] at rest
          rw [fieldsFrom_of_solid blank]
          exact rest

theorem splits_fields (line : List Char) : Splits line (fields line) :=
  splits_fieldsFrom line fun _ member => absurd member List.not_mem_nil

theorem fieldsFrom_append {front : List Char} (unbroken : ∀ c ∈ front, isBlank c = false)
    (line held : List Char) :
    fieldsFrom (front ++ line) held = fieldsFrom line (front.reverse ++ held) := by
  induction front generalizing held with
  | nil => rfl
  | cons c front ih =>
      obtain ⟨solid, rest⟩ := List.forall_mem_cons.mp unbroken
      rw [List.cons_append, fieldsFrom_of_solid solid, ih rest, List.reverse_cons,
        List.append_assoc, List.singleton_append]

theorem Splits.eq_fields (splits : Splits line parts) : parts = fields line := by
  induction splits with
  | nil => rfl
  | blank blank _ ih => rw [ih, fields, fields, fieldsFrom_gap blank]
  | @last field solid =>
      have collected := fieldsFrom_append solid.unbroken [] []
      rw [List.append_nil, List.append_nil] at collected
      obtain ⟨first, held, reversed⟩ :=
        List.exists_cons_of_ne_nil (Solid.of_reverse solid.nonempty solid.unbroken).nonempty
      rw [fields, collected, reversed, fieldsFrom_end, ← reversed, List.reverse_reverse]
  | @field field c line parts solid blank _ ih =>
      have collected := fieldsFrom_append solid.unbroken (c :: line) []
      rw [List.append_nil] at collected
      obtain ⟨first, held, reversed⟩ :=
        List.exists_cons_of_ne_nil (Solid.of_reverse solid.nonempty solid.unbroken).nonempty
      rw [fields, collected, reversed, fieldsFrom_of_blank blank, ← reversed,
        List.reverse_reverse, ih, fields]

theorem existsUnique_splits (line : List Char) : ∃! parts, Splits line parts :=
  ⟨fields line, splits_fields line, fun _ splits => splits.eq_fields⟩

section Separators

variable {separator : Char}

theorem splitAtFrom_of_not_mem (missing : separator ∉ line) (held : List Char) :
    splitAtFrom separator line held = [held.reverse ++ line] := by
  induction line generalizing held with
  | nil => rw [splitAtFrom, List.append_nil]
  | cons c line ih =>
      rw [List.mem_cons, not_or] at missing
      rw [splitAtFrom, if_neg (Ne.symm missing.1), ih missing.2, List.reverse_cons,
        List.append_assoc, List.singleton_append]

theorem splitAtFrom_append {part : List Char} (missing : separator ∉ part) (line held : List Char) :
    splitAtFrom separator (part ++ separator :: line) held = (held.reverse ++ part) ::
        splitAtFrom separator line [] := by
  induction part generalizing held with
  | nil => rw [List.nil_append, splitAtFrom, if_pos rfl, List.append_nil]
  | cons c part ih =>
      rw [List.mem_cons, not_or] at missing
      rw [List.cons_append, splitAtFrom, if_neg (Ne.symm missing.1), ih missing.2,
        List.reverse_cons, List.append_assoc, List.singleton_append]

theorem splitAtFrom_ne_nil (separator : Char) (line held : List Char) :
    splitAtFrom separator line held ≠ [] := by
  by_cases member : separator ∈ line
  · obtain ⟨front, back, rfl, missing⟩ := List.eq_append_cons_of_mem member
    rw [splitAtFrom_append missing]
    exact List.cons_ne_nil _ _
  · rw [splitAtFrom_of_not_mem member]
    exact List.cons_ne_nil _ _

theorem splitAt_eq_singleton {part : List Char} : splitAt separator line = [part] ↔ line = part ∧
    separator ∉ line := by
  constructor
  · intro split
    by_cases member : separator ∈ line
    · obtain ⟨front, back, rfl, missing⟩ := List.eq_append_cons_of_mem member
      rw [splitAt, splitAtFrom_append missing] at split
      exact absurd (List.cons.inj split).2 (splitAtFrom_ne_nil separator back [])
    · rw [splitAt, splitAtFrom_of_not_mem member] at split
      exact ⟨List.singleton_inj.mp split, member⟩
  · rintro ⟨rfl, missing⟩
    exact splitAtFrom_of_not_mem missing []

theorem splitAt_eq_pair {first second : List Char} : splitAt separator line = [first, second] ↔
    line = first ++ separator :: second ∧ separator ∉ first ∧ separator ∉ second := by
  constructor
  · intro split
    by_cases member : separator ∈ line
    · obtain ⟨front, back, rfl, missing⟩ := List.eq_append_cons_of_mem member
      rw [splitAt, splitAtFrom_append missing] at split
      obtain ⟨rfl, rest⟩ := List.cons.inj split
      obtain ⟨rfl, none⟩ := splitAt_eq_singleton.mp rest
      exact ⟨rfl, missing, none⟩
    · rw [splitAt, splitAtFrom_of_not_mem member] at split
      cases split
  · rintro ⟨rfl, missing, none⟩
    rw [splitAt, splitAtFrom_append missing, splitAtFrom_of_not_mem none]
    rfl

end Separators

end LatentTopics.Text
