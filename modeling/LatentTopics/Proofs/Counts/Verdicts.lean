import Mathlib
import LatentTopics.Proofs.Counts.Balance
import LatentTopics.Proofs.Counts.Operations

/-! The verdicts of the check. A store that is not balanced has a negative count, or a sum that is
not what it should be, and the check names one of these. But it looks for the column of every topic
that it meets before it knows that there is one: at a topic beyond the totals, which only a sparse
row can hold, it comes to no verdict. -/
namespace LatentTopics.Store

/-- What the check may say of rows that are not in order, with the counts that it names. -/
inductive RowFlaw (vocab : Vocabulary) (rows : List (Nat × Row)) : Fault → Prop where
  | negative {row : Nat × Row} {topic : Nat} {count : Int} (listed : row ∈ rows)
      (held : (topic, count) ∈ row.2.pairs)
      (negative : count < 0) : RowFlaw vocab rows (.negativeCount topic count)
  | sum {row : Nat × Row} (listed : row ∈ rows) (differs : row.2.total ≠ vocab.frequency row.1) :
      RowFlaw vocab rows (.countMismatch (.rowSum row.1) (vocab.frequency row.1) row.2.total)

inductive Flaw (vocab : Vocabulary) (store : Store) : Fault → Prop where
  | row {fault : Fault} (flaw : RowFlaw vocab store.rows fault) : Flaw vocab store fault
  | total {topic : Nat} (below : topic < store.summary.numTopics)
      (differs : store.column topic ≠ store.summary.get topic) :
      Flaw vocab store (.countMismatch (.summaryCount topic) (store.column topic)
        (store.summary.get topic))

/-- Behind counts that are in order there is one of a topic beyond the totals. -/
def Stray (numTopics : Nat) (pairs : List (Nat × Int)) : Prop :=
  ∃ front topic count back, pairs = front ++ (topic, count) :: back ∧
    Countable numTopics front ∧ 0 ≤ count ∧
    numTopics ≤ topic

def RowStrays (vocab : Vocabulary) (numTopics : Nat) (rows : List (Nat × Row)) : Prop :=
  ∃ front row back, rows = front ++ row :: back ∧ (∀ other ∈ front, Whole vocab numTopics other) ∧
    Stray numTopics row.2.pairs

def Strays (vocab : Vocabulary) (store : Store) : Prop :=
  RowStrays vocab store.summary.numTopics store.rows

section Pairs

theorem checkPairs_append {front : List (Nat × Int)} (pairs : List (Nat × Int)) (total : Int)
    {columns : Array Int} (countable : Countable columns.size front) :
    ∃ sum sums, sums.size = columns.size ∧
      checkPairs (front ++ pairs) total columns = checkPairs pairs sum sums := by
  induction front generalizing total columns with
  | nil => exact ⟨total, columns, rfl, rfl⟩
  | cons pair front ih =>
      obtain ⟨topic, count⟩ := pair
      obtain ⟨nonneg, below⟩ := countable _ List.mem_cons_self
      have rest : Countable (columns.modify topic (· + count)).size front := by
        rw [Array.size_modify]
        exact fun other member => countable other (List.mem_cons_of_mem _ member)
      obtain ⟨sum, sums, size, same⟩ := ih (total + count) rest
      refine ⟨sum, sums, size.trans Array.size_modify, ?_⟩
      rw [List.cons_append, checkPairs, if_neg (not_lt.mpr nonneg), if_pos below, same]

theorem checkPairs_stray {pairs : List (Nat × Int)} {columns : Array Int}
    (stray : Stray columns.size pairs) (total : Int) :
    checkPairs pairs total columns = .error (.breach .indexOutOfRange) := by
  obtain ⟨front, topic, count, back, rfl, countable, nonneg, beyond⟩ := stray
  obtain ⟨sum, sums, size, same⟩ := checkPairs_append ((topic, count) :: back) total countable
  rw [same, checkPairs, if_neg (not_lt.mpr nonneg), if_neg (by omega)]

theorem checkPairs_error {pairs : List (Nat × Int)} {total : Int} {columns : Array Int}
    {fault : Fault} (refused : checkPairs pairs total columns = .error fault) :
    (∃ topic count, (topic, count) ∈ pairs ∧ count < 0 ∧ fault = .negativeCount topic count) ∨
      fault = .breach .indexOutOfRange ∧ Stray columns.size pairs := by
  induction pairs generalizing total columns with
  | nil => cases refused
  | cons pair pairs ih =>
      obtain ⟨topic, count⟩ := pair
      rw [checkPairs] at refused
      split at refused
      · next negative =>
        cases refused
        exact Or.inl ⟨topic, count, List.mem_cons_self, negative, rfl⟩
      · next nonneg =>
        split at refused
        · next below =>
          rcases ih refused with ⟨other, found, inside, negative, same⟩ | ⟨same, front, other,
            found, back, rfl, countable, least⟩
          · exact Or.inl ⟨other, found, List.mem_cons_of_mem _ inside, negative, same⟩
          · rw [Array.size_modify] at countable least
            refine Or.inr ⟨same, (topic, count) :: front, other, found, back, rfl, ?_, least⟩
            exact List.forall_mem_cons.mpr ⟨⟨not_lt.mp nonneg, below⟩, countable⟩
        · next beyond =>
          cases refused
          exact Or.inr ⟨rfl, [], topic, count, pairs, rfl, List.forall_mem_nil _, not_lt.mp nonneg,
            not_lt.mp beyond⟩

end Pairs

section Rows

variable {vocab : Vocabulary}

theorem checkRows_append {front : List (Nat × Row)} (rows : List (Nat × Row)) {columns : Array Int}
    (whole : ∀ row ∈ front, Whole vocab columns.size row) :
    ∃ sums, sums.size = columns.size ∧
      checkRows vocab (front ++ rows) columns = checkRows vocab rows sums := by
  induction front generalizing columns with
  | nil => exact ⟨columns, rfl, rfl⟩
  | cons row front ih =>
      obtain ⟨word, row⟩ := row
      obtain ⟨countable, length⟩ := whole _ List.mem_cons_self
      obtain ⟨next, accepted, size, _⟩ := checkPairs_ok word 0 countable
      dsimp only [Row.tokens] at length
      have rest : ∀ row ∈ front, Whole vocab next.size row := by
        rw [size]
        exact fun other member => whole other (List.mem_cons_of_mem _ member)
      obtain ⟨sums, sameSize, same⟩ := ih rest
      refine ⟨sums, sameSize.trans size, ?_⟩
      rw [List.cons_append, checkRows, accepted]
      dsimp only
      rw [length, Int.zero_add, if_neg (not_not.mpr rfl), same]

theorem RowFlaw.later {rows : List (Nat × Row)} {fault : Fault} (flaw : RowFlaw vocab rows fault)
    (row : Nat × Row) : RowFlaw vocab (row :: rows) fault := by
  cases flaw with
  | negative listed held negative => exact .negative (List.mem_cons_of_mem _ listed) held negative
  | sum listed differs => exact .sum (List.mem_cons_of_mem _ listed) differs

theorem checkRows_error {rows : List (Nat × Row)} {columns : Array Int} {fault : Fault}
    (refused : checkRows vocab rows columns = .error fault) :
    RowFlaw vocab rows fault ∨ fault = .breach .indexOutOfRange ∧
      RowStrays vocab columns.size rows := by
  induction rows generalizing columns with
  | nil => cases refused
  | cons row rows ih =>
      obtain ⟨word, row⟩ := row
      rw [checkRows] at refused
      split at refused
      · next checked =>
        cases refused
        rcases checkPairs_error checked with ⟨topic, count, inside, negative, rfl⟩ | ⟨same, stray⟩
        · exact Or.inl (.negative List.mem_cons_self inside negative)
        · exact Or.inr ⟨same, [], (word, row), rows, rfl, List.forall_mem_nil _, stray⟩
      · next total columnsAfter checked =>
        have countable := checkPairs_countable checked
        obtain ⟨sums, again, size, _⟩ := checkPairs_ok word 0 countable
        rw [again] at checked
        obtain ⟨rfl, rfl⟩ := Prod.mk.inj (Except.ok.inj checked)
        have length := Row.total_eq_length (fun pair inside => (countable pair inside).1) word
        rw [Int.zero_add, ← Row.tokens, ← length] at refused
        dsimp only at refused
        split at refused
        · next differs =>
          cases refused
          exact Or.inl (.sum List.mem_cons_self differs)
        · next same =>
          rcases ih refused with flaw | ⟨breach, front, other, back, rfl, whole, stray⟩
          · exact Or.inl (flaw.later _)
          · rw [size] at whole stray
            refine Or.inr ⟨breach, (word, row) :: front, other, back, rfl, ?_, stray⟩
            refine List.forall_mem_cons.mpr ⟨⟨countable, ?_⟩, whole⟩
            exact_mod_cast length.symm.trans (not_not.mp same)

theorem checkTotals_error {totals : List (Int × Int)} {topic : Nat} {fault : Fault}
    (refused : checkTotals totals topic = .error fault) :
    ∃ index expected actual, totals[index]? = some (expected, actual) ∧ expected ≠ actual ∧
      fault = .countMismatch (.summaryCount (topic + index)) expected actual := by
  induction totals generalizing topic with
  | nil => cases refused
  | cons pair totals ih =>
      obtain ⟨expected, actual⟩ := pair
      rw [checkTotals] at refused
      split at refused
      · next differs =>
        cases refused
        exact ⟨0, expected, actual, rfl, differs, rfl⟩
      · obtain ⟨index, expected, actual, here, differs, same⟩ := ih refused
        refine ⟨index + 1, expected, actual, here, differs, ?_⟩
        rw [same, Nat.add_assoc, Nat.add_comm 1]

end Rows

variable {vocab : Vocabulary} {store : Store}

theorem Fits.check_error (fits : Fits vocab store) {fault : Fault}
    (refused : check vocab store = .error fault) :
    Flaw vocab store fault ∨ fault = .breach .indexOutOfRange ∧ store.Strays vocab := by
  have empty : (Array.replicate store.summary.numTopics (0 : Int)).size = store.summary.numTopics :=
    Array.size_replicate
  rw [check] at refused
  split at refused
  · next checked =>
    cases refused
    rcases checkRows_error checked with flaw | ⟨same, strays⟩
    · exact Or.inl (.row flaw)
    · rw [empty] at strays
      exact Or.inr ⟨same, strays⟩
  · next sums checked =>
    have whole := checkRows_whole checked
    obtain ⟨columns, again, size, column⟩ := checkRows_ok whole
    obtain rfl := Except.ok.inj (checked.symm.trans again)
    rw [empty] at whole size
    obtain ⟨topic, expected, actual, here, differs, rfl⟩ := checkTotals_error refused
    rw [Nat.zero_add]
    rw [Array.getElem?_toList] at here
    obtain ⟨expectedHere, actualHere⟩ := Array.getElem?_zip_eq_some.mp here
    dsimp only at expectedHere actualHere
    have below : topic < store.summary.numTopics := (Array.getElem?_eq_some_iff.mp actualHere).1
    have nonneg : ∀ row ∈ store.rows, ∀ pair ∈ row.2.pairs, 0 ≤ pair.2 :=
      fun row member pair inside => ((whole row member).1 pair inside).1
    have sum := column topic
    rw [Arrays.getD_of_getElem? expectedHere, Arrays.getD_replicate, Int.zero_add] at sum
    have expectedEq : expected = store.column topic := by
      rw [← countP_tokens fits nonneg, sum, Tokens.ofTopic, Multiset.coe_countP]
      rfl
    have actualEq : actual = store.summary.get topic := (Arrays.getD_of_getElem? actualHere 0).symm
    rw [expectedEq, actualEq] at differs ⊢
    exact Or.inl (.total below differs)

/-- The check comes to no verdict just where a topic strays. -/
theorem Fits.check_breach (fits : Fits vocab store) :
    check vocab store = .error (.breach .indexOutOfRange) ↔ store.Strays vocab := by
  constructor
  · intro refused
    rcases fits.check_error refused with (flaw | _) | ⟨_, strays⟩
    · cases flaw
    · exact strays
  · rintro ⟨front, ⟨word, row⟩, back, listed, whole, stray⟩
    have empty : (Array.replicate store.summary.numTopics (0 : Int)).size =
        store.summary.numTopics := Array.size_replicate
    rw [← empty] at whole stray
    obtain ⟨sums, size, same⟩ := checkRows_append ((word, row) :: back) whole
    have rows : store.slices.toList.flatMap Slice.rows = front ++ (word, row) :: back := listed
    rw [← size] at stray
    rw [check, rows, same, checkRows, checkPairs_stray stray]

/-- The check of a store that was worked on in any way: it accepts the balanced ones and no others,
and what it says of the others is so; but where a topic strays it fails. -/
theorem check_verdicts {terms : List (Nat × Nat)} {numTopics loadFactor : Nat}
    (made : Vocabulary.ofFrequencies terms numTopics loadFactor = .ok vocab) (limits : Cells)
    (worked : Worked (vocab.slice limits) store) :
    (check (vocab.slice limits) store = .ok () ↔ store.Balanced (vocab.slice limits)) ∧
    (check (vocab.slice limits) store = .error (.breach .indexOutOfRange) ↔
      store.Strays (vocab.slice limits)) ∧
    ((∀ row ∈ store.rows, ∀ pair ∈ row.2.pairs, pair.1 < numTopics) →
      ¬ store.Strays (vocab.slice limits)) ∧
    (¬ store.Balanced (vocab.slice limits) → ¬ store.Strays (vocab.slice limits) →
      ∃ fault, check (vocab.slice limits) store = .error fault ∧
      Flaw (vocab.slice limits) store fault) := by
  have fits := worked.reachable.fits (Vocabulary.lawful_of_frequencies made limits)
  have size : store.summary.numTopics = vocab.numTopics := fits.numTopics
  rw [Vocabulary.numTopics_of_frequencies made] at size
  refine ⟨fits.check_eq_ok, fits.check_breach, ?_, ?_⟩
  · rintro topics ⟨front, row, back, listed, _, pairs, topic, count, others, held, _, _, beyond⟩
    have below := topics row (by rw [listed]; simp) (topic, count) (by rw [held]; simp)
    rw [size] at beyond
    omega
  · intro unbalanced follows
    cases checked : check (vocab.slice limits) store with
    | ok _ => exact absurd (fits.check_eq_ok.mp checked) unbalanced
    | error fault =>
        refine ⟨fault, rfl, ?_⟩
        rcases fits.check_error checked with flaw | ⟨_, strays⟩
        · exact flaw
        · exact absurd strays follows

/-- The counts of a document of one token. -/
theorem check_verdicts_rare : ∃ vocab store, Vocabulary.ofFrequencies [(0, 1)] 12 2 = .ok vocab ∧
    Worked (vocab.slice ⟨0, 0⟩) store ∧ store.Balanced (vocab.slice ⟨0, 0⟩) ∧
      ¬ store.Strays (vocab.slice ⟨0, 0⟩) := by
  obtain ⟨balanced, breach, _⟩ := check_verdicts Vocabulary.ofFrequencies_rare ⟨0, 0⟩ worked_rare
  refine ⟨_, _, Vocabulary.ofFrequencies_rare, worked_rare, balanced.mp (by decide +kernel),
    fun strays => ?_⟩
  have refused := breach.mpr strays
  revert refused
  decide +kernel

/-- The token gets a topic that does not exist: the table takes it, and the check fails. -/
theorem check_fails : ∃ vocab store, Vocabulary.ofFrequencies [(0, 1)] 12 2 = .ok vocab ∧
    Worked (vocab.slice ⟨0, 0⟩) store ∧
      check (vocab.slice ⟨0, 0⟩) store = .error (.breach .indexOutOfRange) := by
  have lowered := worked_rare.row 0 0 0 (show Number.Int32Range (-1) from ⟨by decide, by decide⟩)
  have raised := lowered.row 0 0 12 (show Number.Int32Range 1 from ⟨by decide, by decide⟩)
  exact ⟨_, _, Vocabulary.ofFrequencies_rare, raised, by decide +kernel⟩

end LatentTopics.Store
