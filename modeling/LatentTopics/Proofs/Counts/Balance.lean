import Mathlib
import LatentTopics.Proofs.Counts.Checked

/-! Balanced stores. The rows hold as many tokens as their words have, and the totals are the sums
of the columns, of every topic that a row holds and not only of those that there are totals for.
This is what the check of a store is about, in terms of what is stored and without any tokens. -/
namespace LatentTopics

namespace Row

variable {row : Row}

theorem total_eq_length (nonneg : ∀ pair ∈ row.pairs, 0 ≤ pair.2) (word : Nat) :
    row.total = (row.tokens word).length := by
  rw [total_eq_sum, tokens]
  generalize row.pairs = pairs at nonneg
  induction pairs with
  | nil => rfl
  | cons pair pairs ih =>
      have own := nonneg pair List.mem_cons_self
      rw [List.map_cons, List.sum_cons, copies_cons, List.length_append, List.length_replicate,
        ih fun other member => nonneg other (List.mem_cons_of_mem _ member)]
      omega

theorem get_nonneg (sound : row.Sound) (nonneg : ∀ pair ∈ row.pairs, 0 ≤ pair.2) (topic : Nat) :
    0 ≤ row.get topic := by
  by_cases zero : row.get topic = 0
  · exact zero.ge
  · exact nonneg (topic, row.get topic) ((mem_pairs sound topic _).mpr ⟨zero, rfl⟩)

theorem countP_tokens (sound : row.Sound) (nonneg : ∀ pair ∈ row.pairs, 0 ≤ pair.2)
    (word topic : Nat) :
    ((row.tokens word).countP fun token => token.topic = topic) = row.get topic := by
  have same : (row.tokens word).countP (fun token => decide (token.topic = topic)) =
      (row.tokens word).countP (· == (⟨word, topic⟩ : Token)) := by
    apply List.countP_congr
    rintro ⟨other, position⟩ member
    obtain ⟨rfl, _⟩ := mem_tokens member
    simp
  have counted := count_tokens sound word topic
  rw [List.count] at counted
  rw [same, counted, Int.toNat_of_nonneg (get_nonneg sound nonneg topic)]

end Row

namespace Store

/-- No count of a row is negative, and every row sums to the frequency of its word. -/
structure Filled (vocab : Vocabulary) (store : Store) : Prop where
  nonneg : ∀ row ∈ store.rows, ∀ pair ∈ row.2.pairs, 0 ≤ pair.2
  sums : ∀ row ∈ store.rows, row.2.total = vocab.frequency row.1

def column (store : Store) (topic : Nat) : Int :=
  (store.rows.map fun row => row.2.get topic).sum

/-- Rows filled as the vocabulary says, and the totals of all topics. -/
structure Balanced (vocab : Vocabulary) (store : Store) : Prop where
  filled : store.Filled vocab
  totals : ∀ topic, store.summary.get topic = store.column topic

variable {vocab : Vocabulary} {store : Store} {topic : Nat}

theorem Fits.row_sound (fits : Fits vocab store) {row : Nat × Row} (member : row ∈ store.rows) :
    row.2.Sound := by
  obtain ⟨_, _, _, _, sound, _⟩ := fits.mem_rows member
  exact sound

theorem countP_tokens (fits : Fits vocab store)
    (nonneg : ∀ row ∈ store.rows, ∀ pair ∈ row.2.pairs, 0 ≤ pair.2) (topic : Nat) :
    Tokens.ofTopic store.tokens topic = store.column topic := by
  have sound : ∀ row ∈ store.rows, row.2.Sound := fun row member => fits.row_sound member
  rw [Tokens.ofTopic, Multiset.coe_countP, tokens, column]
  generalize store.rows = rows at nonneg sound
  induction rows with
  | nil => rfl
  | cons row rows ih =>
      have own := Row.countP_tokens (sound row List.mem_cons_self)
        (nonneg row List.mem_cons_self) row.1 topic
      have rest := ih (fun other member => nonneg other (List.mem_cons_of_mem _ member))
        fun other member => sound other (List.mem_cons_of_mem _ member)
      rw [List.flatMap_cons, List.countP_append, List.map_cons, List.sum_cons, ← own, ← rest]
      push_cast
      rfl

theorem column_eq_zero (every : ∀ row ∈ store.rows, row.2.get topic = 0) :
    store.column topic = 0 := by
  rw [column, List.map_congr_left every, List.map_const', List.sum_replicate, smul_zero]

theorem get_eq_zero_of_column (nonneg : ∀ row ∈ store.rows, 0 ≤ row.2.get topic)
    (zero : store.column topic = 0) {row : Nat × Row} (member : row ∈ store.rows) :
    row.2.get topic = 0 := by
  have least : ∀ count ∈ store.rows.map fun row => row.2.get topic, 0 ≤ count := by
    intro count inside
    obtain ⟨row, listed, rfl⟩ := List.mem_map.mp inside
    exact nonneg row listed
  have most := List.single_le_sum least _ (List.mem_map_of_mem member)
  rw [column] at zero
  exact Int.le_antisymm (zero ▸ most) (nonneg row member)

theorem Fits.check_eq_ok (fits : Fits vocab store) :
    check vocab store = .ok () ↔ store.Balanced vocab := by
  rw [Store.check_eq_ok]
  have beyond : ∀ topic, store.summary.numTopics ≤ topic → store.summary.get topic = 0 := by
    intro topic outside
    rw [Summary.get, Array.getD_eq_getD_getElem?, Array.getElem?_eq_none outside, Option.getD_none]
  constructor
  · rintro ⟨whole, totals⟩
    have nonneg : ∀ row ∈ store.rows, ∀ pair ∈ row.2.pairs, 0 ≤ pair.2 :=
      fun row member pair inside => ((whole row member).1 pair inside).1
    refine ⟨⟨nonneg, ?_⟩, ?_⟩
    · intro row member
      rw [Row.total_eq_length (nonneg row member) row.1, (whole row member).2]
    · intro topic
      rw [← countP_tokens fits nonneg]
      by_cases below : topic < store.summary.numTopics
      · exact totals topic below
      -- The check has found no topic that the totals lack.
      · rw [beyond topic (not_lt.mp below), countP_tokens fits nonneg, eq_comm]
        apply column_eq_zero
        intro row member
        by_contra present
        have inside := (Row.mem_pairs (fits.row_sound member) topic _).mpr ⟨present, rfl⟩
        exact below ((whole row member).1 _ inside).2
  · rintro ⟨⟨nonneg, sums⟩, totals⟩
    refine ⟨?_, fun topic _ => by rw [countP_tokens fits nonneg]; exact totals topic⟩
    intro row member
    refine ⟨?_, ?_⟩
    · rintro ⟨topic, count⟩ inside
      refine ⟨nonneg row member _ inside, ?_⟩
      by_contra outside
      have zero : store.column topic = 0 := by
        rw [← totals, beyond topic (not_lt.mp outside)]
      obtain ⟨nonzero, own⟩ := (Row.mem_pairs (fits.row_sound member) topic count).mp inside
      have none := get_eq_zero_of_column
        (fun other listed => Row.get_nonneg (fits.row_sound listed) (nonneg other listed)
          topic) zero member
      exact nonzero (own.symm.trans none)
    · have sum := sums row member
      rw [Row.total_eq_length (nonneg row member) row.1] at sum
      exact_mod_cast sum

end Store

end LatentTopics
