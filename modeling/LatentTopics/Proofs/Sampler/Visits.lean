import Mathlib
import LatentTopics.Proofs.Corpus.Words
import LatentTopics.Proofs.Courses
import LatentTopics.Sampler.Sweep

/-! The visits of a sweep. They go through the tokens from the cursor on, one after another, up to
the last word of the slice. Whatever is drawn, the words stay, the cursor comes to stand behind the
last visit, and the statistics tell how many visits there were. -/
namespace LatentTopics

/-- A token in the moment in which it is resampled: its index, its document, the counts there are
then, and the rule by which its moves are weighed. -/
structure Visit where
  index : Nat
  doc : Document
  priors : Priors Float
  tally : Nat → Tally
  rule : MoveRule

def Document.opening (id : Nat) (doc : Document) : Nat :=
  if id = 0 then 0 else doc.cursor

theorem Document.opening_le (id position : Nat) (doc : Document) :
    doc.opening id ≤ position ↔ (id ≠ 0 → doc.cursor ≤ position) := by
  rw [opening]
  split
  · next zero => simp [zero]
  · next later => simp [later]

structure Document.Resumed (entry : SliceMeta) (visited : Nat)
    (before after : Document) : Prop where
  words : after.words = before.words
  cursor : after.cursor = before.opening entry.id + visited
  within : before.opening entry.id + visited ≤ before.size
  passed : ∀ position word, before.opening entry.id ≤ position →
    position < before.opening entry.id + visited →
    before.words[position]? = some word → word ≤ entry.lastWord
  stopped : ∀ word, before.words[before.opening entry.id + visited]? = some word →
    entry.lastWord < word

theorem Document.resumed_at {entry : SliceMeta} {doc swept : Document} {next : Nat}
    (words : swept.words = doc.words) (least : doc.opening entry.id ≤ next)
    (inside : next ≤ doc.size)
    (passed : ∀ position word, doc.opening entry.id ≤ position → position < next →
      doc.words[position]? = some word → word ≤ entry.lastWord)
    (stopped : ∀ word, doc.words[next]? = some word → entry.lastWord < word) :
    doc.Resumed entry (next - doc.opening entry.id) (swept.setCursor next) := by
  have count : doc.opening entry.id + (next - doc.opening entry.id) = next :=
    Nat.add_sub_of_le least
  have size : swept.size = doc.size := by
    rw [← size_words, words, size_words]
  constructor
  · exact words
  · rw [count, Document.setCursor, size]
    exact Nat.min_eq_left inside
  · rwa [count]
  · rwa [count]
  · rwa [count]

structure Chain.Tried (count : Nat) (before after : Chain) : Prop where
  sampled : after.stats.sampled = before.stats.sampled
  proposed : after.stats.proposed = before.stats.proposed + 2 * count

namespace Chain

variable {chain after : Chain}

theorem rounds_tried (proposals : AliasSlice) (word : Nat) (doc : Document) (numTopics : Nat)
    (alphaSum : Float) (rule : MoveRule) (count : Nat)
    (done : rounds proposals word doc numTopics alphaSum rule count chain = some after) :
    Tried count chain after := by
  induction count generalizing chain with
  | zero =>
      obtain rfl := Option.some.inj done
      exact ⟨rfl, rfl⟩
  | succ count ih =>
      cases moved : chain.wordMove proposals word rule with
      | none =>
          simp only [rounds, moved] at done
          cases done
      | some next =>
          simp only [rounds, moved] at done
          have first : next.stats.sampled = chain.stats.sampled ∧
              next.stats.proposed = chain.stats.proposed + 1 := by
            rw [wordMove] at moved
            split at moved
            · cases moved
            · obtain rfl := Option.some.inj moved
              exact ⟨rfl, rfl⟩
          have second :
              (next.docMove doc numTopics alphaSum rule).stats.sampled = next.stats.sampled ∧
                (next.docMove doc numTopics alphaSum rule).stats.proposed =
                  next.stats.proposed + 1 := ⟨rfl, rfl⟩
          obtain ⟨sampled, proposed⟩ := ih done
          exact ⟨by omega, by omega⟩

theorem rounds_changed (proposals : AliasSlice) (word : Nat) (doc : Document) (numTopics : Nat)
    (alphaSum : Float) (rule : MoveRule) (count : Nat)
    (done : rounds proposals word doc numTopics alphaSum rule count chain = some after) :
    after.stats.changed = chain.stats.changed := by
  induction count generalizing chain with
  | zero =>
      obtain rfl := Option.some.inj done
      rfl
  | succ count ih =>
      cases moved : chain.wordMove proposals word rule with
      | none =>
          simp only [rounds, moved] at done
          cases done
      | some next =>
          simp only [rounds, moved] at done
          have first : next.stats.changed = chain.stats.changed := by
            rw [wordMove] at moved
            split at moved
            · cases moved
            · obtain rfl := Option.some.inj moved
              rfl
          exact (ih done).trans first

end Chain

namespace Sampler

structure Worked (reported visited : Nat) (before after : Sampler) : Prop where
  mhStep : after.mhStep = before.mhStep
  sampled : after.stats.sampled = before.stats.sampled + reported
  proposed : after.stats.proposed = before.stats.proposed + 2 * before.mhStep * visited

theorem Worked.refl (sampler : Sampler) : Worked 0 0 sampler sampler :=
  ⟨rfl, rfl, rfl⟩

theorem Worked.next {visited : Nat} {before between after : Sampler}
    (first : Worked 0 visited before between) (second : Worked 0 1 between after) :
    Worked 0 (visited + 1) before after := by
  refine ⟨second.mhStep.trans first.mhStep, second.sampled.trans first.sampled, ?_⟩
  rw [second.proposed, first.proposed, first.mhStep, mul_one, mul_add_one, add_assoc]

variable {M : Type}

theorem rewind_eq (entry : SliceMeta) (sampler : Sampler) (doc : Document) (model : M) :
    rewind entry ⟨sampler, doc, model⟩ =
        ⟨sampler, { doc with cursor := doc.opening entry.id }, model⟩ := by
  rw [rewind, Document.opening]
  split <;> rfl

theorem recount_kept {bench after : Bench M} (done : recount bench = .ok () after) :
    after.doc = bench.doc ∧ Worked 0 0 bench.sampler after.sampler := by
  obtain ⟨⟨rng, counter, stats, numTopics, mhStep, alphaSum, priors⟩, doc, model⟩ := bench
  rw [recount] at done
  split at done
  · cases done
    exact ⟨rfl, rfl, rfl, rfl⟩
  · cases done

theorem applyChange_kept {commit : Change → Update M Unit} {index : Nat} {change : Change}
    {bench after : Bench M} (done : applyChange commit index change bench = .ok () after) :
    bench.doc.Kept after.doc ∧ Worked 0 0 bench.sampler after.sampler := by
  obtain ⟨⟨rng, counter, stats, numTopics, mhStep, alphaSum, priors⟩, doc, model⟩ := bench
  cases committed : commit change model with
  | error fault next =>
      simp only [applyChange, bind, EStateM.bind, runCommit, committed] at done
      cases done
  | ok _ next =>
      cases taken : TopicCounter.add change.old (-1) counter with
      | error fault lowered =>
          simp only [applyChange, bind, EStateM.bind, runCommit, committed, moveInCounter,
            taken] at done
          cases done
      | ok _ lowered =>
          cases put : TopicCounter.add change.new 1 lowered with
          | error fault raised =>
              simp only [applyChange, bind, EStateM.bind, runCommit, committed, moveInCounter,
                taken, put] at done
              cases done
          | ok _ raised =>
              simp only [applyChange, bind, EStateM.bind, runCommit, committed, moveInCounter,
                taken, put, writeTopic] at done
              cases done
              exact ⟨doc.kept_setTopic index change.new, rfl, rfl, rfl⟩

variable [TopicCounts M]

def visitAt (proposals : AliasSlice) (index : Nat) : Update (Bench M) Unit := fun bench =>
  visit trainingRule TopicCounts.commit proposals index (bench.doc.tokens.getD index default) bench

def isBeyond (lastWord index : Nat) (bench : Bench M) : Bool :=
  lastWord < (bench.doc.tokens.getD index default).word

/-- The moment before the token at an index is resampled,
with the rule that `resample` is given in all its rounds. -/
def moment (index : Nat) (bench : Bench M) : Visit :=
  let sampler := bench.sampler
  let token := bench.doc.tokens.getD index default
  ⟨index, bench.doc, sampler.priors, tally sampler.counter bench.model token.word,
    trainingRule sampler.priors sampler.counter bench.model token.word token.topic⟩

/-- The visits of a sweep over a document that the model counts, in their order. Wherever the sweep
comes to stand when it is stopped after so many tokens, the next visit is that of the token there,
unless it belongs to a later slice. -/
def visits (entry : SliceMeta) (proposals : AliasSlice) (bench : Bench M) : List Visit :=
  match recount (rewind entry bench) with
  | .error _ _ => []
  | .ok _ bench =>
      let first := bench.doc.cursor
      (List.range (bench.doc.size - first)).filterMap fun taken =>
        match visitFrom trainingRule TopicCounts.commit proposals entry.lastWord taken
          first bench with
        | .ok next bench =>
            if isBeyond entry.lastWord next bench then none else some (moment next bench)
        | .error _ _ => none

theorem visitFrom_eq_steps (proposals : AliasSlice) (lastWord count index : Nat) (bench : Bench M) :
    visitFrom trainingRule TopicCounts.commit proposals lastWord count index bench =
      Update.steps (isBeyond lastWord) (visitAt proposals) count index bench := by
  induction count generalizing index bench with
  | zero => rfl
  | succ count ih =>
      rw [visitFrom, Update.steps, isBeyond, visitAt]
      by_cases beyond : lastWord < (bench.doc.tokens.getD index default).word
      · simp only [beyond, if_true, decide_true]
      · simp only [beyond, if_false, decide_false, Bool.false_eq_true]
        cases visit trainingRule TopicCounts.commit proposals index
          (bench.doc.tokens.getD index default) bench with
        | ok _ after => exact ih (index + 1) after
        | error fault after => rfl

theorem visits_eq_course {entry : SliceMeta} {bench opened : Bench M}
    (recounted : recount (rewind entry bench) = .ok () opened) (proposals : AliasSlice) :
    visits entry proposals bench =
      (Update.course (isBeyond entry.lastWord) (visitAt proposals)
        (opened.doc.size - opened.doc.cursor) opened.doc.cursor opened).map fun stop =>
          moment stop.1 stop.2 := by
  simp only [visits, recounted, visitFrom_eq_steps, Update.course_eq_filterMap, List.map_filterMap]
  apply List.filterMap_congr
  intro taken _
  cases Update.steps (isBeyond entry.lastWord) (visitAt proposals) taken
    opened.doc.cursor opened with
  | error fault now => rfl
  | ok next now =>
      dsimp only
      split <;> rfl

theorem visitAt_kept {proposals : AliasSlice} {index : Nat} {bench after : Bench M}
    (done : visitAt proposals index bench = .ok () after) :
    bench.doc.Kept after.doc ∧ Worked 0 1 bench.sampler after.sampler := by
  obtain ⟨sampler, doc, model⟩ := bench
  simp only [visitAt, visit] at done
  split at done
  · cases done
  · next topic rng stats drawn =>
    obtain ⟨sampled, proposed⟩ := Chain.rounds_tried _ _ _ _ _ _ _ drawn
    split at done
    · cases done
      exact ⟨Document.Kept.refl doc, rfl, sampled, by rw [Nat.mul_one]; exact proposed⟩
    · obtain ⟨kept, mhStep, sameSampled, sameProposed⟩ := applyChange_kept done
      refine ⟨kept, mhStep, sameSampled.trans sampled, ?_⟩
      rw [sameProposed, Nat.mul_zero, Nat.add_zero, Nat.mul_one]
      exact proposed

theorem word_getD {doc : Document} {position word : Nat} (here : doc.words[position]? = some word) :
    (doc.tokens.getD position default).word = word := by
  rw [Document.words, Array.getElem?_map, Option.map_eq_some_iff] at here
  obtain ⟨token, there, same⟩ := here
  rw [Arrays.getD_of_getElem? there, same]

structure Bench.Along (lastWord first : Nat) (opened : Bench M) (index : Nat)
    (bench : Bench M) : Prop where
  kept : opened.doc.Kept bench.doc
  worked : Worked 0 (index - first) opened.sampler bench.sampler
  passed : ∀ position word, first ≤ position → position < index →
    opened.doc.words[position]? = some word → word ≤ lastWord

omit [TopicCounts M] in
theorem Bench.along_refl (lastWord first : Nat) (opened : Bench M) :
    opened.Along lastWord first first opened := by
  refine ⟨Document.Kept.refl _, ?_, fun position word least below =>
    absurd least (not_le.mpr below)⟩
  rw [Nat.sub_self]
  exact Worked.refl _

theorem Bench.Along.next {proposals : AliasSlice} {lastWord first index : Nat}
    {opened bench after : Bench M} (along : opened.Along lastWord first index bench)
    (least : first ≤ index) (within : isBeyond lastWord index bench = false)
    (visited : visitAt proposals index bench = .ok () after) :
    opened.Along lastWord first (index + 1) after := by
  obtain ⟨kept, worked⟩ := visitAt_kept visited
  have further : index + 1 - first = index - first + 1 := by omega
  refine ⟨along.kept.trans kept, further ▸ along.worked.next worked, ?_⟩
  intro position word reached below here
  rcases Nat.eq_or_lt_of_le (Nat.le_of_lt_succ below) with rfl | earlier
  · rw [← along.kept.words] at here
    rw [isBeyond, word_getD here, decide_eq_false_iff_not, not_lt] at within
    exact within
  · exact along.passed position word reached earlier here

omit [TopicCounts M] in
theorem Bench.Along.resumed {entry : SliceMeta} {doc : Document}
    {opened bench : Bench M} {next : Nat}
    (along : opened.Along entry.lastWord (doc.opening entry.id) next bench)
    (same : opened.doc.words = doc.words) (least : doc.opening entry.id ≤ next)
    (inside : next ≤ doc.size)
    (ended : next < doc.size → isBeyond entry.lastWord next bench = true) :
    doc.Resumed entry (next - doc.opening entry.id) (bench.doc.setCursor next) := by
  refine Document.resumed_at (along.kept.words.trans same) least inside (same ▸ along.passed) ?_
  intro word here
  have below : next < doc.size := by
    rw [← Document.size_words]
    exact (Array.getElem?_eq_some_iff.mp here).1
  rw [← same, ← along.kept.words] at here
  have beyond := ended below
  rwa [isBeyond, word_getD here, decide_eq_true_iff] at beyond

/-- A sweep that succeeds takes up where the document's cursor
stands, and its visits go on from there without a gap. -/
theorem sampleDoc_resumed {entry : SliceMeta} {proposals : AliasSlice} {sampler : Sampler}
    {doc : Document} {model : M} {after : Bench M} {visited : Nat}
    (within : doc.opening entry.id ≤ doc.size)
    (done : sampleDoc entry proposals ⟨sampler, doc, model⟩ = .ok visited after) :
    doc.Resumed entry visited after.doc ∧ Worked visited visited sampler after.sampler ∧
      (visits entry proposals ⟨sampler, doc, model⟩).map Visit.index =
        List.range' (doc.opening entry.id) visited := by
  cases recounted : recount (rewind entry ⟨sampler, doc, model⟩) with
  | error fault opened =>
      simp only [sampleDoc, sweep, recounted] at done
      cases done
  | ok _ opened =>
      obtain ⟨same, mhStep, sampled, proposed⟩ := recount_kept recounted
      rw [rewind_eq] at same mhStep sampled proposed
      have words : opened.doc.words = doc.words := by rw [same]; rfl
      have size : opened.doc.size = doc.size := by rw [same]; rfl
      have first : opened.doc.cursor = doc.opening entry.id := congrArg Document.cursor same
      simp only [sampleDoc, sweep, recounted, visitFrom_eq_steps, first] at done
      rw [visits_eq_course recounted, first, List.map_map]
      cases stepped : Update.steps (isBeyond entry.lastWord) (visitAt proposals)
        (opened.doc.size - doc.opening entry.id) (doc.opening entry.id) opened with
      | error fault between =>
          rw [stepped] at done
          cases done
      | ok next between =>
          rw [stepped] at done
          cases done
          obtain ⟨least, most, ended, along⟩ := Update.steps_kept _
            (Bench.along_refl entry.lastWord (doc.opening entry.id) opened)
            (fun number state after least _ along goes visited =>
              along.next least goes visited) stepped
          have worked := along.worked
          have numbers := (Update.course_of_steps _ stepped).1
          have resumed := along.resumed words least (by omega) (fun below => ended (by omega))
          refine ⟨resumed, ⟨worked.mhStep.trans mhStep, ?_, ?_⟩, numbers⟩
          · exact congrArg (· + _) (worked.sampled.trans sampled)
          · change between.sampler.stats.proposed = _
            rw [worked.proposed, proposed, mhStep, Nat.mul_zero, Nat.add_zero]

end Sampler

end LatentTopics
