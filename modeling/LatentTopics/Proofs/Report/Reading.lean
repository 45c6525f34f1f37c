import Mathlib
import LatentTopics.Report
import LatentTopics.Proofs.Decimal.Numerals
import LatentTopics.Proofs.Text.Fields

/-! The text of a table and its reading. A line feed ends each line, its parts stand between spaces,
and a colon is between a topic and its count. None of these stands in a number, so that the parts
can be told from each other and are read as what was written. -/
namespace LatentTopics.Report

open Text

def readPair? (text : List Char) : Option (Nat × Int) :=
  match splitAt ':' text with
  | [topic, count] =>
      match (String.ofList topic).toNat?, (String.ofList count).toInt? with
      | some topic, some count => some (topic, count)
      | _, _ => none
  | _ => none

def readLine? (line : List Char) : Option (Nat × List (Nat × Int)) :=
  match splitAt ' ' line with
  | word :: pairs =>
      match (String.ofList word).toNat?, pairs.mapM readPair? with
      | some word, some pairs => some (word, pairs)
      | _, _ => none
  | [] => none

def readTable? (text : String) : Option (List (Nat × List (Nat × Int))) :=
  (splitAt '\n' text.toList).dropLast.mapM readLine?

def spellPair (pair : Nat × Int) : List Char :=
  (Nat.repr pair.1).toList ++ ':' :: (Int.repr pair.2).toList

def spellLine (line : Nat × List (Nat × Int)) : List Char :=
  (Nat.repr line.1).toList ++ line.2.flatMap fun pair => ' ' :: spellPair pair

section Spelling

theorem toList_foldl {α : Type} (entries : List α) (write : α → String) (text : String) :
    (entries.foldl (fun text entry => text ++ write entry) text).toList =
      text.toList ++ entries.flatMap fun entry => (write entry).toList := by
  induction entries generalizing text with
  | nil => rw [List.foldl_nil, List.flatMap_nil, List.append_nil]
  | cons entry entries ih =>
      rw [List.foldl_cons, ih, String.toList_append, List.flatMap_cons, List.append_assoc]

theorem toList_wordLine (word : Nat) (pairs : List (Nat × Int)) :
    (wordLine word pairs).toList = spellLine (word, pairs) ++ ['\n'] := by
  have each : ∀ pair : Nat × Int, (s!" {pair.1}:{pair.2}").toList = ' ' :: spellPair pair := by
    intro pair
    simp only [String.toList_append, spellPair, List.append_assoc]
    rfl
  have whole := toList_foldl pairs (fun pair => s!" {pair.1}:{pair.2}") (toString word)
  simp only [each] at whole
  rw [wordLine, String.toList_append, whole]
  rfl

theorem toList_wordTopicText (store : Store) :
    (wordTopicText store).toList = (wordTopics store).flatMap fun line =>
        spellLine line ++ ['\n'] := by
  have whole := toList_foldl (wordTopics store) (fun line => wordLine line.1 line.2) ""
  simp only [toList_wordLine] at whole
  exact whole

end Spelling

section Parts

variable {separator : Char}

theorem not_mem_repr (other : separator.isDigit = false) (number : Nat) :
    separator ∉ (Nat.repr number).toList := by
  intro member
  rw [Nat.toList_repr] at member
  exact Bool.false_ne_true (other.symm.trans (Decimal.isDigit_of_mem_toDigits member))

theorem not_mem_int_repr (other : separator.isDigit = false) (different : separator ≠ '-')
    (number : Int) :
    separator ∉ (Int.repr number).toList := by
  cases number with
  | ofNat number => exact not_mem_repr other number
  | negSucc number =>
      have sign : (Int.repr (.negSucc number)).toList = '-' :: (Nat.repr (number + 1)).toList :=
        String.toList_append
      rw [sign, List.mem_cons, not_or]
      exact ⟨different, not_mem_repr other _⟩

theorem not_mem_spellPair (other : separator.isDigit = false) (different : separator ≠ '-')
    (apart : separator ≠ ':') (pair : Nat × Int) : separator ∉ spellPair pair := by
  rw [spellPair, List.mem_append, List.mem_cons, not_or, not_or]
  exact ⟨not_mem_repr other _, apart, not_mem_int_repr other different _⟩

theorem not_mem_spellLine (line : Nat × List (Nat × Int)) : '\n' ∉ spellLine line := by
  rw [spellLine, List.mem_append, not_or]
  refine ⟨not_mem_repr rfl _, ?_⟩
  intro member
  obtain ⟨pair, -, inside⟩ := List.mem_flatMap.mp member
  rcases List.mem_cons.mp inside with space | later
  · exact absurd space (by decide)
  · exact not_mem_spellPair rfl (by decide) (by decide) pair later

theorem splitAt_ended {parts : List (List Char)} (missing : ∀ part ∈ parts, separator ∉ part) :
    splitAt separator (parts.flatMap fun part => part ++ [separator]) = parts ++ [[]] := by
  induction parts with
  | nil => rfl
  | cons part parts ih =>
      obtain ⟨first, rest⟩ := List.forall_mem_cons.mp missing
      rw [List.flatMap_cons, List.append_assoc, List.singleton_append, splitAt,
        splitAtFrom_append first, ← splitAt, ih rest]
      rfl

theorem splitAt_begun {part : List Char} {parts : List (List Char)} (first : separator ∉ part)
    (missing : ∀ part ∈ parts, separator ∉ part) :
    splitAt separator (part ++ parts.flatMap fun part => separator :: part) = part :: parts := by
  induction parts generalizing part with
  | nil => rw [List.flatMap_nil, List.append_nil, splitAt_eq_singleton.mpr ⟨rfl, first⟩]
  | cons next parts ih =>
      obtain ⟨second, rest⟩ := List.forall_mem_cons.mp missing
      rw [List.flatMap_cons, List.cons_append, splitAt, splitAtFrom_append first, ← splitAt,
        ih second rest]
      rfl

end Parts

section Reading

theorem mapM_map {α β : Type} {write : α → β} {read? : β → Option α}
    (back : ∀ entry, read? (write entry) = some entry) (entries : List α) :
    (entries.map write).mapM read? = some entries := by
  induction entries with
  | nil => rfl
  | cons entry entries ih =>
      rw [List.map_cons, List.mapM_cons, back, ih]
      rfl

theorem readPair?_spell (pair : Nat × Int) : readPair? (spellPair pair) = some pair := by
  have parts : splitAt ':' (spellPair pair) = [(Nat.repr pair.1).toList,
      (Int.repr pair.2).toList] :=
    splitAt_eq_pair.mpr ⟨rfl, not_mem_repr rfl _, not_mem_int_repr rfl (by decide) _⟩
  rw [readPair?, parts]
  dsimp only
  rw [String.ofList_toList, String.ofList_toList, Nat.toNat?_repr, Int.toInt?_repr]

theorem readLine?_spell (line : Nat × List (Nat × Int)) :
    readLine? (spellLine line) = some line := by
  have parts : splitAt ' ' (spellLine line) = (Nat.repr line.1).toList :: line.2.map spellPair := by
    rw [spellLine, ← List.flatMap_map]
    apply splitAt_begun (not_mem_repr rfl _)
    intro part member
    obtain ⟨pair, -, rfl⟩ := List.mem_map.mp member
    exact not_mem_spellPair rfl (by decide) (by decide) pair
  rw [readLine?, parts]
  dsimp only
  rw [String.ofList_toList, Nat.toNat?_repr, mapM_map readPair?_spell]

theorem readTable?_wordTopicText (store : Store) :
    readTable? (wordTopicText store) = some (wordTopics store) := by
  have missing : ∀ part ∈ (wordTopics store).map spellLine, '\n' ∉ part := by
    intro part member
    obtain ⟨line, -, rfl⟩ := List.mem_map.mp member
    exact not_mem_spellLine line
  have parts := splitAt_ended missing
  rw [List.flatMap_map, ← toList_wordTopicText] at parts
  rw [readTable?, parts, List.dropLast_concat, mapM_map readLine?_spell]

end Reading

end LatentTopics.Report
