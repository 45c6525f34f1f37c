import Mathlib
import LatentTopics.Proofs.Counts.Operations
import LatentTopics.Proofs.Counts.Views

/-! Updates that stop halfway. A commit and a merge are additions one after
another. The first one that is refused ends them; it changes nothing itself, but
what was added before it stays added, and nothing is taken back. So the counts that
are left are those from before with the sums of the additions that came to pass. -/
namespace LatentTopics

namespace Addition

def toRow (word topic : Nat) : Addition → Int
  | .row other position delta => if other = word ∧ position = topic then delta else 0
  | .total .. => 0

def toTotal (topic : Nat) : Addition → Int
  | .row .. => 0
  | .total position delta => if position = topic then delta else 0

/-- The counts of rows and the totals with sums added to
them, as far as 32 bits hold the counts of rows. -/
structure Adds (additions : List Addition) (before after : Slice × Summary) : Prop where
  rows : ∀ word topic, after.1.count word topic =
    Number.narrow (before.1.count word topic + (additions.map (toRow word topic)).sum)
  totals : ∀ topic, after.2.get topic = before.2.get topic + (additions.map (toTotal topic)).sum

/-- Additions that were stopped: those in front took place,
and the next one was refused and changed nothing. -/
structure Halted (additions : List Addition) (fault : Fault)
    (before after : Slice × Summary) : Prop where
  stopped : ∃ front addition back, additions = front ++ addition :: back ∧
    applyAll front before = .ok () after ∧
    addition.apply after = .error fault after ∧ Adds front before after
  first : ∀ addition rest, additions = addition :: rest →
    Update.refusal addition.apply before ≠ none → after = before

variable {addition : Addition} {additions : List Addition} {before after : Slice × Summary}
  {fault : Fault}

theorem Adds.refl (valid : before.1.Valid) : Adds [] before before := by
  constructor
  · intro word topic
    rw [List.map_nil, List.sum_nil, Int.add_zero, (valid.count_range word topic).narrow_eq]
  · intro topic
    rw [List.map_nil, List.sum_nil, Int.add_zero]

theorem Adds.cons {between : Slice × Summary} (first : Adds [addition] before between)
    (rest : Adds additions between after) : Adds (addition :: additions) before after := by
  constructor
  · intro word topic
    rw [rest.rows, first.rows, Number.narrow_add_narrow, List.map_singleton, List.sum_singleton,
      List.map_cons, List.sum_cons, Int.add_assoc]
  · intro topic
    rw [rest.totals, first.totals, List.map_singleton, List.sum_singleton, List.map_cons,
      List.sum_cons, Int.add_assoc]

theorem total_outcome (topic : Nat) (delta : Int) (summary : Summary) :
    (∃ after, Summary.add topic delta summary = .ok () after ∧
      ∀ other, after.get other = summary.get other + if topic = other then delta else 0) ∨
      ∃ fault, Summary.add topic delta summary = .error fault summary := by
  by_cases below : topic < summary.counts.size
  · by_cases negative : summary.counts.getD topic 0 + delta < 0
    · refine Or.inr ⟨.negativeCount topic (summary.counts.getD topic 0 + delta), ?_⟩
      simp only [Summary.add, if_pos below, if_pos negative]
    · obtain ⟨after, added, _, own, others⟩ := summary.add_ok below (not_lt.mp negative)
      refine Or.inl ⟨after, added, ?_⟩
      intro other
      by_cases same : topic = other
      · rw [if_pos same, ← same, own]
      · rw [if_neg same, others other (Ne.symm same), Int.add_zero]
  · refine Or.inr ⟨.topicOutOfRange topic summary.counts.size, ?_⟩
    simp only [Summary.add, if_neg below]

theorem apply_outcome (valid : before.1.Valid) (range : addition.InRange) :
    (∃ after, addition.apply before = .ok () after ∧ after.1.Valid ∧ Adds [addition] before after) ∨
      ∃ fault, addition.apply before = .error fault before := by
  obtain ⟨slice, summary⟩ := before
  cases addition with
  | row word topic delta =>
      rcases Slice.add_outcome valid word topic range with ⟨next, added, _,
        assigns⟩ | ⟨fault, refused⟩
      · refine Or.inl ⟨(next, summary), by simp only [apply, added], assigns.valid, ?_, fun topic =>
          (Int.add_zero _).symm⟩
        intro other position
        rw [List.map_singleton, List.sum_singleton, toRow, assigns.counts]
        by_cases own : word = other ∧ topic = position
        · obtain ⟨rfl, rfl⟩ := own
          rw [if_pos ⟨rfl, rfl⟩, if_pos ⟨rfl, rfl⟩]
        · rw [if_neg own, if_neg (fun same => own ⟨same.1.symm, same.2.symm⟩), Int.add_zero,
            (valid.count_range other position).narrow_eq]
      · exact Or.inr ⟨fault, by simp only [apply, refused]⟩
  | total topic delta =>
      rcases total_outcome topic delta summary with ⟨next, added, sums⟩ | ⟨fault, refused⟩
      · refine Or.inl ⟨(slice, next), by simp only [apply, added], valid, ?_, ?_⟩
        · intro other position
          rw [List.map_singleton, List.sum_singleton, toRow, Int.add_zero,
            (valid.count_range other position).narrow_eq]
        · intro other
          rw [List.map_singleton, List.sum_singleton, toTotal]
          exact sums other
      · exact Or.inr ⟨fault, by simp only [apply, refused]⟩

theorem applyAll_error (valid : before.1.Valid) (ranges : ∀ addition ∈ additions, addition.InRange)
    (failed : applyAll additions before = .error fault after) :
    ∃ front addition back, additions = front ++ addition :: back ∧
      applyAll front before = .ok () after ∧
      addition.apply after = .error fault after ∧ Adds front before after := by
  induction additions generalizing before with
  | nil => cases failed
  | cons addition additions ih =>
      rcases apply_outcome valid (ranges _ List.mem_cons_self) with ⟨between, added, validNext,
        sums⟩ | ⟨other, refused⟩
      · rw [applyAll, added] at failed
        obtain ⟨front, next, back, rfl, done, refused, rest⟩ :=
          ih validNext (fun later member => ranges later (List.mem_cons_of_mem _ member)) failed
        exact ⟨addition :: front, next, back, rfl, by rw [applyAll, added]; exact done, refused,
          sums.cons rest⟩
      · rw [applyAll, refused] at failed
        cases failed
        exact ⟨[], addition, additions, rfl, rfl, refused, .refl valid⟩

theorem halted_of_error (valid : before.1.Valid) (ranges : ∀ addition ∈ additions, addition.InRange)
    (failed : applyAll additions before = .error fault after) :
    Halted additions fault before after := by
  refine ⟨applyAll_error valid ranges failed, ?_⟩
  rintro addition rest rfl stops
  rcases apply_outcome valid (ranges _ List.mem_cons_self) with ⟨between, added,
    _⟩ | ⟨other, refused⟩
  · exact absurd (Update.refusal_of_ok added) stops
  · rw [applyAll, refused] at failed
    cases failed
    rfl

end Addition

namespace InPlace

theorem commit_error {change : Change} {view after : InPlace} {fault : Fault}
    (failed : commit change view = .error fault after) :
    after.recording = view.recording ∧ after.events = view.events ∧
      Addition.applyAll change.additions (view.slice, view.summary) = .error fault (after.slice,
        after.summary) := by
  rcases commit_cases change view with ⟨moved, _, committed⟩ | ⟨other, left, refused, committed⟩
  · rw [committed] at failed
    cases failed
  · rw [committed] at failed
    cases failed
    rw [runsAs_move] at refused
    split at refused
    · cases refused
    · next applied =>
      cases refused
      exact ⟨rfl, rfl, applied⟩

end InPlace

section Failed

variable {slice : Slice} {summary : Summary} {change : Change} {recording : Bool}
  {events : Array Change} {fault : Fault}

theorem InPlace.left_of_refused
    (refused : ∃ other, Slice.add change.word change.old (-1) slice = .error other slice)
    {after : InPlace}
    (failed : commit change ⟨slice, summary, recording, events⟩ = .error fault after) :
    after = ⟨slice, summary, recording, events⟩ := by
  obtain ⟨other, refused⟩ := refused
  simp only [commit, bind, EStateM.bind, addToRow, refused] at failed
  cases failed
  rfl

/-- Where slice and totals count the same tokens, a commit
to a topic that exists is refused at once or not at all. -/
theorem Counted.commit_error {limit : Nat → Nat} {tokens : Multiset Token}
    (counted : Counted slice summary limit tokens) (below : change.new < summary.numTopics)
    {after : InPlace}
    (failed : InPlace.commit change ⟨slice, summary, recording, events⟩ = .error fault after) :
    after = ⟨slice, summary, recording, events⟩ := by
  have valid := counted.rows.valid
  apply InPlace.left_of_refused ?_ failed
  rcases Slice.add_outcome valid change.word change.old
    (show Number.Int32Range (-1) from ⟨by decide, by decide⟩) with
    ⟨next, added, nonneg, _⟩ | refused
  -- With a token to take away, the commit would not have failed.
  · have member : change.word ∈ slice.words := by
      by_contra missing
      rw [Slice.add_unknown valid missing] at added
      cases added
    have source : change.source ∈ tokens := by
      rw [← Multiset.count_pos]
      have held := counted.rows.counts change.word member change.old
      have same : change.source = ⟨change.word, change.old⟩ := rfl
      rw [same]
      omega
    obtain ⟨_, _, done, _⟩ := counted.commit member source below recording events
    rw [done] at failed
    cases failed
  · exact refused

end Failed

namespace Store

variable {vocab : Vocabulary} {store : Store} {id : Nat} {slice : Slice}

/-- What failed updates leave, of a slice of a store that was worked on in any way and of any
totals: what was added before the refusal, and no record. The commit of a move within counted tokens
is refused before it has changed anything. -/
theorem failures_halt {terms : List (Nat × Nat)} {numTopics loadFactor : Nat}
    (made : Vocabulary.ofFrequencies terms numTopics loadFactor = .ok vocab) (limits : Cells)
    (worked : Worked (vocab.slice limits) store) (here : store.slices[id]? = some slice)
    (summary : Summary) :
    (∀ change recording events fault after,
      InPlace.commit change ⟨slice, summary, recording, events⟩ = .error fault after →
        after.events = events ∧
        Addition.Halted change.additions fault (slice, summary) (after.slice, after.summary)) ∧
    (∀ log fault after, DeltaLog.mergeInto log (slice, summary) = .error fault after →
      Addition.Halted log.additions fault (slice, summary) after) ∧
    ∀ limit tokens change recording events fault after, Counted slice summary limit tokens →
      change.new < summary.numTopics →
      InPlace.commit change ⟨slice, summary, recording, events⟩ = .error fault after →
        after = ⟨slice, summary, recording, events⟩ := by
  have fits := worked.reachable.fits (Vocabulary.lawful_of_frequencies made limits)
  obtain ⟨_, _, valid, _⟩ := fits.entry here
  refine ⟨?_, ?_, fun limit tokens change recording events fault after counted below =>
    counted.commit_error below⟩
  · intro change recording events fault after failed
    obtain ⟨_, same, applied⟩ := InPlace.commit_error failed
    exact ⟨same, Addition.halted_of_error valid change.additions_inRange applied⟩
  · intro log fault after failed
    rw [DeltaLog.mergeInto_eq] at failed
    exact Addition.halted_of_error valid log.additions_inRange failed

/-- A move to a topic that does not exist takes place in the
row, which is a table, and is refused at the last total. -/
theorem commit_rare : InPlace.commit ⟨0, 0, 12⟩
    ⟨⟨0, #[0], ⟨12, #[], #[.empty, .occupied 0 1], #[.sparse ⟨0, 2⟩ 0]⟩⟩,
      ⟨#[1, 0, 0, 0, 0, 0, 0, 0, 0, 0, 0, 0]⟩, true, #[]⟩ =
    .error (.topicOutOfRange 12 12)
        ⟨⟨0, #[0], ⟨12, #[], #[.empty, .occupied 12 1], #[.sparse ⟨0, 2⟩ 0]⟩⟩,
      ⟨#[0, 0, 0, 0, 0, 0, 0, 0, 0, 0, 0, 0]⟩, true, #[]⟩ := by
  cbv

theorem failures_halt_rare :
    ∃ vocab store slice change fault after, Vocabulary.ofFrequencies [(0, 1)] 12 2 = .ok vocab ∧
    Worked (vocab.slice ⟨0, 0⟩) store ∧ store.slices[0]? = some slice ∧
    InPlace.commit change ⟨slice, store.summary, true, #[]⟩ = .error fault after ∧
      after.events = #[] ∧
    Addition.Halted change.additions fault (slice, store.summary) (after.slice, after.summary) := by
  obtain ⟨commits, _, _⟩ := failures_halt Vocabulary.ofFrequencies_rare ⟨0, 0⟩ worked_rare
    (show (_ : Store).slices[0]? = some _ from rfl) ⟨#[1, 0, 0, 0, 0, 0, 0, 0, 0, 0, 0, 0]⟩
  obtain ⟨same, halted⟩ := commits _ _ _ _ _ commit_rare
  exact ⟨_, _, _, _, _, _, Vocabulary.ofFrequencies_rare, worked_rare, rfl, commit_rare,
    same, halted⟩

/-- So a commit that fails can leave other counts than there were. -/
theorem commit_keeps_front :
    ∃ vocab store slice change fault after, Vocabulary.ofFrequencies [(0, 1)] 12 2 = .ok vocab ∧
    Worked (vocab.slice ⟨0, 0⟩) store ∧ store.slices[0]? = some slice ∧
    InPlace.commit change ⟨slice, store.summary, true, #[]⟩ = .error fault after ∧
    after.slice.count 0 0 ≠ slice.count 0 0 ∧ after.summary.get 0 ≠ store.summary.get 0 :=
  ⟨_, _, _, _, _, _, Vocabulary.ofFrequencies_rare, worked_rare, rfl,
    commit_rare, by decide +kernel, by decide⟩

end Store

end LatentTopics
