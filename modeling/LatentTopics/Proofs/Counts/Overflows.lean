import Mathlib
import LatentTopics.Proofs.Corpus.CounterStates
import LatentTopics.Proofs.Counts.Agreement
import LatentTopics.Proofs.Counts.Operations

/-! Counts at the end of their range. A sum is computed exactly, tested against zero and stored in
32 bits. So a count is right as long as its sums stay below 2^31; the first one that does not is
accepted all the same and stored as a negative number. -/
namespace LatentTopics

namespace Arena

/-- What may be done to an arena with rows of any kinds. Whatever fails is left as it is. -/
inductive Used : Arena → Prop where
  | new (numTopics : Nat) {kinds : List RowKind} (legal : ∀ kind ∈ kinds, kind.Legal) :
      Used (ofKinds numTopics kinds)
  | add {arena : Arena} (used : Used arena) (index topic : Nat) {delta : Int}
      (range : Number.Int32Range delta) :
      Used (Update.left (Arena.add index topic delta) arena)
  | clear {arena : Arena} (used : Used arena) : Used arena.clear

def addAt (place : Nat × Nat) (delta : Int) : Update Arena Unit :=
  add place.1 place.2 delta

def getAt (arena : Arena) (place : Nat × Nat) : Int :=
  arena.get place.1 place.2

def Takes (arena : Arena) (place : Nat × Nat) : Prop :=
  Admits arena place.1 place.2

variable {arena : Arena} {delta : Int}

theorem Valid.settles (valid : Valid arena) (place : Nat × Nat) (range : Number.Int32Range delta) :
    Settles Number.narrow getAt Takes place delta (addAt place delta) arena := by
  refine .of_outcomes (fun full => add_refused valid full delta) (fun admits negative =>
    ⟨_, add_negative valid admits negative⟩) ?_
  intro admits nonneg
  obtain ⟨after, added, assigns⟩ := add_ok valid admits range nonneg
  exact ⟨after, added, fun other =>
    (assigns.counts other.1 other.2).trans (if_congr Prod.ext_iff.symm rfl rfl)⟩

theorem keeps_valid (place : Nat × Nat) (range : Number.Int32Range delta) :
    Update.Keeps Valid (addAt place delta) := by
  refine .of_outcomes fun arena valid => ?_
  rcases add_outcome valid place.1 place.2 range with ⟨after, added, _, assigns⟩ | refused
  · exact .inl ⟨(), after, added, assigns.valid⟩
  · exact .inr refused

theorem Used.valid (used : Used arena) : Valid arena := by
  induction used with
  | new numTopics legal => exact (ofKinds_spec numTopics _ legal).1
  | add used index topic range ih => exact keeps_valid (index, topic) range _ ih
  | clear used ih => exact ih.clear

theorem Used.narrows (used : Used arena) : Narrows getAt Takes addAt arena :=
  .of_settles used.valid (fun place _ range => keeps_valid place range)
    (fun _ place _ valid range => valid.settles place range)
    fun _ place valid => valid.get_range place.1 place.2

end Arena

namespace Slice

def addAt (place : Nat × Nat) (delta : Int) : Update Slice Unit :=
  add place.1 place.2 delta

def countAt (slice : Slice) (place : Nat × Nat) : Int :=
  slice.count place.1 place.2

def Takes (slice : Slice) (place : Nat × Nat) : Prop :=
  Admits slice place.1 place.2

variable {slice : Slice} {word topic : Nat} {delta : Int}

theorem add_refused (valid : Valid slice) (refuses : ¬ Admits slice word topic) (delta : Int) :
    ∃ fault, add word topic delta slice = .error fault slice := by
  by_cases member : word ∈ slice.words
  · obtain ⟨index, here⟩ := Array.getElem?_of_mem member
    obtain ⟨fault, refused⟩ :=
      Arena.add_refused valid.arena (fun room => refuses ⟨index, here, room⟩) delta
    refine ⟨fault, ?_⟩
    simp only [add, (valid.increasing.find?_eq_some word index).mpr here, refused]
  · exact ⟨_, add_unknown valid member topic delta⟩

theorem Valid.settles (valid : Valid slice) (place : Nat × Nat) (range : Number.Int32Range delta) :
    Settles Number.narrow countAt Takes place delta (addAt place delta) slice := by
  refine .of_outcomes (fun full => add_refused valid full delta) (fun admits negative =>
    ⟨_, add_negative valid admits negative⟩) ?_
  intro admits nonneg
  obtain ⟨after, added, assigns⟩ := add_ok valid admits range nonneg
  exact ⟨after, added, fun other =>
    (assigns.counts other.1 other.2).trans (if_congr Prod.ext_iff.symm rfl rfl)⟩

theorem keeps_valid (place : Nat × Nat) (range : Number.Int32Range delta) :
    Update.Keeps Valid (addAt place delta) := by
  refine .of_outcomes fun slice valid => ?_
  rcases add_outcome valid place.1 place.2 range with ⟨after, added, _, assigns⟩ | refused
  · exact .inl ⟨(), after, added, assigns.valid⟩
  · exact .inr refused

end Slice

theorem Summary.settles (summary : Summary) (topic : Nat) (delta : Int) :
    Settles id Summary.get (fun summary topic => topic < summary.counts.size) topic delta
        (Summary.add topic delta) summary := by
  refine .of_outcomes ?_ ?_ ?_
  · intro above
    refine ⟨.topicOutOfRange topic summary.counts.size, ?_⟩
    simp only [Summary.add, if_neg above]
  · intro below negative
    have least : summary.counts.getD topic 0 + delta < 0 := negative
    refine ⟨.negativeCount topic (summary.counts.getD topic 0 + delta), ?_⟩
    simp only [Summary.add, if_pos below, if_pos least]
  · intro below nonneg
    obtain ⟨after, added, _, own, others⟩ := summary.add_ok below nonneg
    refine ⟨after, added, fun other => ?_⟩
    by_cases same : other = topic
    · rw [if_pos same, same, own, id]
    · rw [if_neg same, others other same]

namespace DeltaLog

/-- What a merge that succeeds leaves. The sums of a log have 64 bits. The
one for a count is cut off to 32 of them, tested with the count and cut
off once more when it is stored; the one for a total is used as it is. -/
structure Merged (log : DeltaLog) (before after : Slice × Summary) : Prop where
  counts : ∀ word topic, after.1.count word topic =
    Number.narrow (before.1.count word topic + log.wordDelta word topic)
  exact : ∀ word topic,
    (after.1.count word topic = before.1.count word topic + log.wordDelta word topic ∧
      0 ≤ after.1.count word topic) ↔
    0 ≤ before.1.count word topic + log.wordDelta word topic ∧
      before.1.count word topic + log.wordDelta word topic < 2147483648
  tested : ∀ word topic, log.wordDelta word topic ≠ 0 →
    0 ≤ before.1.count word topic + Number.narrow (log.wordDelta word topic)
  totals : ∀ topic, after.2.get topic = before.2.get topic + log.totalDelta topic
  totalsNonneg : ∀ topic, log.totalDelta topic ≠ 0 → 0 ≤ after.2.get topic

theorem applyToRows_eq (changes : List ((Nat × Nat) × Int)) :
    applyToRows changes = inTurn (fun place delta => Slice.addAt place (Number.narrow delta))
        changes := by
  funext slice
  induction changes generalizing slice with
  | nil => rfl
  | cons change changes ih =>
      obtain ⟨⟨word, topic⟩, delta⟩ := change
      simp only [applyToRows, inTurn, Slice.addAt]
      cases Slice.add word topic (Number.narrow delta) slice with
      | ok _ next => exact ih next
      | error fault next => rfl

theorem applyToTotals_eq (changes : List (Nat × Int)) :
    applyToTotals changes = inTurn Summary.add changes := by
  funext summary
  induction changes generalizing summary with
  | nil => rfl
  | cons change changes ih =>
      obtain ⟨topic, delta⟩ := change
      simp only [applyToTotals, inTurn]
      cases Summary.add topic delta summary with
      | ok _ next => exact ih next
      | error fault next => rfl

variable {log : DeltaLog} {before after : Slice × Summary}

theorem exact_iff_of_narrow {stored sum : Int} (narrowed : stored = Number.narrow sum) :
    (stored = sum ∧ 0 ≤ stored) ↔ 0 ≤ sum ∧ sum < 2147483648 := by
  constructor
  · rintro ⟨rfl, nonneg⟩
    have range := Number.narrow_range stored
    rw [← narrowed] at range
    exact ⟨nonneg, range.2⟩
  · rintro ⟨nonneg, fits⟩
    have same : stored = sum := narrowed.trans (Number.narrow_eq_self (by omega) fits)
    exact ⟨same, same ▸ nonneg⟩

theorem Merged.of_sums (valid : before.1.Valid)
    (rows : ∀ place : Nat × Nat,
      (log.wordDelta place.1 place.2 ≠ 0 →
        0 ≤ before.1.countAt place + Number.narrow (log.wordDelta place.1 place.2) ∧
          after.1.countAt place =
            Number.narrow (before.1.countAt place + Number.narrow
              (log.wordDelta place.1 place.2))) ∧
        (log.wordDelta place.1 place.2 = 0 → after.1.countAt place = before.1.countAt place))
    (totals : ∀ topic, (log.totalDelta topic ≠ 0 → 0 ≤ before.2.get topic + log.totalDelta topic ∧
        after.2.get topic = before.2.get topic + log.totalDelta topic) ∧
      (log.totalDelta topic = 0 → after.2.get topic = before.2.get topic)) :
        log.Merged before after := by
  have counts : ∀ word topic,
      after.1.count word topic = Number.narrow
        (before.1.count word topic + log.wordDelta word topic) := by
    intro word topic
    obtain ⟨changed, same⟩ := rows (word, topic)
    simp only [Slice.countAt] at changed same
    by_cases zero : log.wordDelta word topic = 0
    · rw [same zero, zero, Int.add_zero, (valid.count_range word topic).narrow_eq]
    · rw [(changed zero).2, Int.add_comm, Number.narrow_add_narrow, Int.add_comm]
  refine ⟨counts, fun word topic => exact_iff_of_narrow (counts word topic), ?_, ?_, ?_⟩
  · exact fun word topic nonzero => ((rows (word, topic)).1 nonzero).1
  · intro topic
    by_cases zero : log.totalDelta topic = 0
    · rw [(totals topic).2 zero, zero, Int.add_zero]
    · exact ((totals topic).1 zero).2
  · intro topic nonzero
    obtain ⟨nonneg, sum⟩ := (totals topic).1 nonzero
    rw [sum]
    exact nonneg

theorem merged_of_ok (valid : before.1.Valid) (done : log.mergeInto before = .ok () after) :
    log.Merged before after := by
  obtain ⟨slice, summary⟩ := before
  rw [mergeInto] at done
  cases rows : applyToRows log.wordChanges slice with
  | error fault next =>
      rw [rows] at done
      cases done
  | ok _ next =>
      cases totals : applyToTotals log.totalChanges summary with
      | error fault left =>
          simp only [rows, totals] at done
          cases done
      | ok _ left =>
          simp only [rows, totals] at done
          cases done
          rw [applyToRows_eq] at rows
          rw [applyToTotals_eq] at totals
          have rowsOf :=
            inTurn_sums (fun place delta => Slice.keeps_valid place (Number.narrow_range delta))
            (fun _ place delta valid => valid.settles place (Number.narrow_range delta))
            (nodup_changes log.wordDeltas wordOrder) (fun place delta =>
              log.mem_wordChanges place.1 place.2 delta) valid rows
          have totalsOf := inTurn_sums (P := fun _ => True) (fun _ _ _ _ => trivial)
            (fun summary topic delta _ => summary.settles topic delta)
              (nodup_changes log.totalDeltas totalOrder)
            log.mem_totalChanges trivial totals
          exact .of_sums valid rowsOf totalsOf

end DeltaLog

/-- After any additions to rows and to counters, and after any merge into a slice of a store that
was worked on in any way, the counts are what 32 bits hold of the exact sums, which is right as long
as the sums are below 2^31. A row and a counter refuse a negative sum, and what they have no room
for, but no sum for being too large. -/
theorem counts_narrowed (arena : Arena) (counter : TopicCounter) (before : Slice × Summary)
    (log : DeltaLog) :
    (arena.Used → Narrows Arena.getAt Arena.Takes Arena.addAt arena) ∧
    (counter.Used → Narrows TopicCounter.get TopicCounter.Takes TopicCounter.add counter) ∧
    ∀ (terms : List (Nat × Nat)) (numTopics loadFactor : Nat) (vocab : Vocabulary)
      (limits : Cells) (store : Store) (id : Nat) (after : Slice × Summary),
      Vocabulary.ofFrequencies terms numTopics loadFactor = .ok vocab →
        Store.Worked (vocab.slice limits) store → store.slices[id]? = some before.1 →
          log.mergeInto before = .ok () after → log.Merged before after := by
  refine ⟨Arena.Used.narrows, TopicCounter.Used.narrows, ?_⟩
  intro terms numTopics loadFactor vocab limits store id after made worked here done
  have fits := worked.reachable.fits (Vocabulary.lawful_of_frequencies made limits)
  obtain ⟨_, _, valid, _⟩ := fits.entry here
  exact DeltaLog.merged_of_ok valid done

theorem Arena.add_largest : add 0 0 2147483647 (ofKinds 1 [.dense]) =
    .ok () ⟨1, #[2147483647], #[], #[.dense 0]⟩ := by
  cbv

theorem Arena.used_dense : Used (ofKinds 1 [.dense]) := by
  refine .new 1 ?_
  intro kind member
  rw [List.mem_singleton.mp member]
  trivial

theorem Store.mergeInto_rare : ∃ after, DeltaLog.mergeInto (DeltaLog.record ⟨0, 0, 1⟩ .empty)
    (⟨0, #[0], ⟨12, #[], #[.empty, .occupied 0 1], #[.sparse ⟨0, 2⟩ 0]⟩⟩,
        ⟨#[1, 0, 0, 0, 0, 0, 0, 0, 0, 0, 0, 0]⟩) =
      .ok () after := by
  have lawful := Vocabulary.lawful_of_frequencies Vocabulary.ofFrequencies_rare ⟨0, 0⟩
  have spacious := Vocabulary.spacious_of_frequencies Vocabulary.ofFrequencies_rare ⟨0, 0⟩
    (by simp) (by simp)
  obtain ⟨tallies, _⟩ := (worked_rare.reachable.fits lawful).tallies_of_check lawful spacious
    (by decide +kernel)
  have tokens : ((Store.mk #[⟨0, #[0], ⟨12, #[], #[.empty, .occupied 0 1], #[.sparse ⟨0, 2⟩ 0]⟩⟩]
      ⟨#[1, 0, 0, 0, 0, 0, 0, 0, 0, 0, 0, 0]⟩).tokens : Multiset Token) = {⟨0, 0⟩} + 0 := by
    decide +kernel
  have counted := tallies.counted 0 _ rfl
  rw [tokens] at counted
  have member : (Change.mk 0 0 1).source ∈ ({⟨0, 0⟩} : Multiset Token) :=
    Multiset.mem_singleton_self _
  have foreign : ∀ token : Token, token.word ∉ #[0] →
      (Tokens.move ⟨0, 0, 1⟩ {⟨0, 0⟩}).count token = ({⟨0, 0⟩} : Multiset Token).count token := by
    intro token missing
    apply Tokens.count_move_foreign member
    intro same
    rw [same] at missing
    exact missing (by decide +kernel)
  obtain ⟨_, _, merged, _⟩ := counted.mergeInto ((DeltaLog.empty_turns _).record member) foreign
    (by decide +kernel)
    (by decide +kernel)
  exact ⟨_, merged⟩

theorem counts_narrowed_full : Arena.Used (Arena.ofKinds 1 [.dense]) ∧
    TopicCounter.Used (TopicCounter.ofCapacity 2) ∧
    Wraps Arena.getAt Arena.Takes (0, 0) 1 (Arena.addAt (0, 0) 1) ⟨1, #[2147483647], #[],
        #[.dense 0]⟩ ∧
    Wraps TopicCounter.get TopicCounter.Takes 7 1 (TopicCounter.add 7 1)
        (TopicCounter.ofCapacity 2) ∧
    ∃ after, DeltaLog.Merged (DeltaLog.record ⟨0, 0, 1⟩ .empty)
      (⟨0, #[0], ⟨12, #[], #[.empty, .occupied 0 1], #[.sparse ⟨0, 2⟩ 0]⟩⟩,
        ⟨#[1, 0, 0, 0, 0, 0, 0, 0, 0, 0, 0, 0]⟩) after := by
  have used : TopicCounter.Used (TopicCounter.ofCapacity 2) := .new 2
  obtain ⟨rows, counters, merges⟩ :=
    counts_narrowed (Arena.ofKinds 1 [.dense]) (TopicCounter.ofCapacity 2)
    (⟨0, #[0], ⟨12, #[], #[.empty, .occupied 0 1], #[.sparse ⟨0, 2⟩ 0]⟩⟩,
      ⟨#[1, 0, 0, 0, 0, 0, 0, 0, 0, 0, 0, 0]⟩)
    (DeltaLog.record ⟨0, 0, 1⟩ .empty)
  have largest : Number.Int32Range 2147483647 := ⟨by decide, by decide⟩
  have one : Number.Int32Range 1 := ⟨by decide, by decide⟩
  refine ⟨Arena.used_dense, used, ?_, ?_, ?_⟩
  · exact (rows Arena.used_dense).steps _ _
      (Accrued.first.stored (0, 0) largest Arena.add_largest) (0, 0) 1 one
  · exact (counters used).steps _ _ .first 7 1 one
  · obtain ⟨after, done⟩ := Store.mergeInto_rare
    exact ⟨after, merges _ _ _ _ ⟨0, 0⟩ _ 0 _ Vocabulary.ofFrequencies_rare
      Store.worked_rare rfl done⟩

/-- The first sum that is too large is accepted, and turns the count negative. -/
theorem Arena.sum_accepted : ∃ before after, Used before ∧ addAt (0, 0) 1 before = .ok () after ∧
    getAt before (0, 0) + 1 = 2147483648 ∧ getAt after (0, 0) = -2147483648 := by
  have used : Used (Update.left (add 0 0 2147483647) (ofKinds 1 [.dense])) :=
    used_dense.add 0 0 ⟨by decide, by decide⟩
  rw [Update.left_of_ok add_largest] at used
  exact ⟨_, ⟨1, #[-2147483648], #[], #[.dense 0]⟩, used, by cbv, by decide, by decide⟩

end LatentTopics
