import Mathlib
import LatentTopics.Proofs.Corpus.Changes
import LatentTopics.Proofs.Counts.Confined
import LatentTopics.Proofs.Counts.Outcomes
import LatentTopics.Proofs.Sampler.Sweeps

/-! What a sweep tells about itself. Up to the visit that fails, if one does,
every change was taken by the model, counted and written to the document before
the next token had its turn. So the changes of the document, those that the
model took and those that are counted are the same ones, in every outcome. -/
namespace LatentTopics

def Document.reach (entry : SliceMeta) (doc : Document) : Nat :=
  ((doc.words.toList.drop (doc.opening entry.id)).takeWhile fun word =>
    word ≤ entry.lastWord).length

namespace Document

variable {doc : Document} {entry : SliceMeta} {count : Nat}

theorem le_reach (doc : Document) (entry : SliceMeta) (count : Nat)
    (within : doc.opening entry.id + count ≤ doc.size)
    (passed : ∀ position word, doc.opening entry.id ≤ position →
      position < doc.opening entry.id + count → doc.words[position]? = some word →
      word ≤ entry.lastWord) :
    doc.reach entry = count +
      ((doc.words.toList.drop (doc.opening entry.id + count)).takeWhile fun word =>
        word ≤ entry.lastWord).length := by
  have split := List.take_append_drop count (doc.words.toList.drop (doc.opening entry.id))
  rw [List.drop_drop] at split
  have every : ∀ word ∈ (doc.words.toList.drop (doc.opening entry.id)).take count,
      decide (word ≤ entry.lastWord) = true := by
    intro word member
    obtain ⟨index, here⟩ := List.getElem?_of_mem member
    rw [List.getElem?_take] at here
    split at here
    · next below =>
      rw [List.getElem?_drop, Array.getElem?_toList] at here
      exact decide_eq_true (passed _ word (Nat.le_add_right _ _) (by omega) here)
    · cases here
  have length : ((doc.words.toList.drop (doc.opening entry.id)).take count).length = count := by
    rw [List.length_take, List.length_drop, Array.length_toList, size_words]
    omega
  rw [reach, ← split, List.takeWhile_append_of_pos every, List.length_append, length]

theorem Resumed.reach {after : Document} (resumed : doc.Resumed entry count after) :
    doc.reach entry = count := by
  rw [le_reach doc entry count resumed.within resumed.passed]
  cases rest : doc.words.toList.drop (doc.opening entry.id + count) with
  | nil => rfl
  | cons word words =>
      have here : doc.words[doc.opening entry.id + count]? = some word := by
        have first := congrArg (·[0]?) rest
        rwa [List.getElem?_drop, Array.getElem?_toList, Nat.add_zero] at first
      have beyond := resumed.stopped word here
      rw [List.takeWhile_cons_of_neg (by simpa using beyond)]
      rfl

end Document

namespace Sampler

variable {M : Type}

/-- How far a sweep has come that began at index `first`,
with every change taken, counted and written. -/
structure Bench.Reporting (numTopics lastWord : Nat) (taken : List Change → M → Prop) (first : Nat)
    (opened : Bench M) (index : Nat) (bench : Bench M) : Prop where
  poised : bench.Poised numTopics
  kept : opened.doc.Kept bench.doc
  ahead : ∀ position, index ≤ position → bench.doc.tokens[position]? = opened.doc.tokens[position]?
  behind : ∀ position < first, bench.doc.tokens[position]? = opened.doc.tokens[position]?
  taken : taken (opened.doc.changes bench.doc) bench.model
  changed : bench.sampler.stats.changed = opened.sampler.stats.changed +
    (opened.doc.changes bench.doc).length
  sampled : bench.sampler.stats.sampled = opened.sampler.stats.sampled
  passed : ∀ position word, first ≤ position → position < index →
    opened.doc.words[position]? = some word → word ≤ lastWord

variable {numTopics lastWord first index : Nat} {commit : Change → Update M Unit}
  {taken : List Change → M → Prop}
  {opened bench : Bench M}

theorem Bench.Reporting.pass
    (reporting : opened.Reporting numTopics lastWord taken first index bench) {token : Token}
    (here : bench.doc.tokens[index]? = some token) (within : token.word ≤ lastWord) :
    opened.Reporting numTopics lastWord taken first (index + 1) bench := by
  refine { reporting with
    ahead := fun position least => reporting.ahead position (by omega)
    passed := ?_ }
  intro position word least below own
  rcases Nat.eq_or_lt_of_le (Nat.le_of_lt_succ below) with rfl | earlier
  · rw [← reporting.kept.words, Document.words, Array.getElem?_map, here] at own
    exact Option.some.inj own ▸ within
  · exact reporting.passed position word least earlier own

theorem Bench.Reporting.redraw
    (reporting : opened.Reporting numTopics lastWord taken first index bench) {drawn : Bench M}
    (drew : bench.Drew drawn) : opened.Reporting numTopics lastWord taken first index drawn := by
  have poised := drew.ready reporting.poised
  obtain ⟨sampler, doc, model⟩ := drawn
  obtain ⟨rfl, rfl, _, _, sampled, changed⟩ := drew
  exact { reporting with
    poised := poised
    changed := changed.trans reporting.changed
    sampled := sampled.trans reporting.sampled }

theorem Bench.Reporting.change (takes : Takes numTopics commit taken)
    (reporting : opened.Reporting numTopics lastWord taken first index bench)
    (least : first ≤ index) {token : Token} (here : bench.doc.tokens[index]? = some token)
    (within : token.word ≤ lastWord) {topic : Nat} (below : topic < numTopics)
    (other : topic ≠ token.topic) {next : M}
    (accepted : commit ⟨token.word, token.topic, topic⟩ bench.model = .ok () next) {after : Bench M}
    (changed : bench.Changed numTopics index topic next after) :
    opened.Reporting numTopics lastWord taken first (index + 1) after := by
  have given : opened.doc.tokens[index]? = some token :=
    (reporting.ahead index (Nat.le_refl _)).symm.trans here
  have old : token.topic < numTopics := reporting.poised.topics token (Array.mem_of_getElem? here)
  have listed : opened.doc.changes after.doc = opened.doc.changes bench.doc ++
      [⟨token.word, token.topic, topic⟩] := by
    rw [changed.doc]
    exact Document.changes_setTopic given reporting.ahead other
  refine ⟨changed.poised, ?_, ?_, ?_, ?_, ?_, ?_, (reporting.pass here within).passed⟩
  · rw [changed.doc]
    exact reporting.kept.trans (bench.doc.kept_setTopic index topic)
  · intro position later
    rw [changed.doc, Document.getElem?_setTopic_ne bench.doc topic (by omega)]
    exact reporting.ahead position (by omega)
  · intro position earlier
    rw [changed.doc, Document.getElem?_setTopic_ne bench.doc topic (by omega)]
    exact reporting.behind position earlier
  · rw [listed, changed.model]
    exact takes.accepted reporting.taken old below accepted
  · rw [changed.stats, listed, List.length_append, List.length_singleton]
    exact congrArg (· + 1) reporting.changed
  · rw [changed.stats]
    exact reporting.sampled

theorem Bench.Reporting.visit (takes : Takes numTopics commit taken) {proposals : AliasSlice}
    (legal : proposals.Legal numTopics)
    (rule : Priors Float → TopicCounter → M → Nat → Nat → MoveRule)
    (reporting : opened.Reporting numTopics lastWord taken first index bench)
    (least : first ≤ index) {token : Token} (here : bench.doc.tokens[index]? = some token)
    (within : token.word ≤ lastWord) :
    (∃ after, Sampler.visit rule commit proposals index token bench = .ok () after ∧
      opened.Reporting numTopics lastWord taken first (index + 1) after) ∨
    ∃ fault after, Sampler.visit rule commit proposals index token bench = .error fault after ∧
      opened.Reporting numTopics lastWord taken first index after ∧
      ∃ change model next, commit change model = .error fault next := by
  obtain ⟨drawn, drew, outcome⟩ :=
    visit_cases commit legal rule reporting.poised.sampler reporting.poised.topics here
  have redrawn := reporting.redraw drew
  rw [← drew.doc] at here
  rcases outcome with stays | ⟨topic, below, other, visited⟩
  · exact Or.inl ⟨drawn, stays, redrawn.pass here within⟩
  · rcases applyChange_cases commit redrawn.poised here below with
      ⟨next, after, accepted, applied, changed⟩ | ⟨fault, next, refused, applied⟩
    · exact Or.inl ⟨after, visited.trans applied,
        redrawn.change takes least here within below other accepted changed⟩
    · have old : token.topic < numTopics := redrawn.poised.topics token (Array.mem_of_getElem? here)
      refine Or.inr ⟨fault, _, visited.trans applied, ?_, _, _, _, refused⟩
      exact { redrawn with
        poised := ⟨redrawn.poised.sampler, redrawn.poised.counter, redrawn.poised.room,
        redrawn.poised.small,
          redrawn.poised.topics, trivial⟩
        taken := takes.refused redrawn.taken old below refused }

theorem Bench.Reporting.visitFrom (takes : Takes numTopics commit taken) {proposals : AliasSlice}
    (legal : proposals.Legal numTopics)
    (rule : Priors Float → TopicCounter → M → Nat → Nat → MoveRule) (count : Nat)
    (reporting : opened.Reporting numTopics lastWord taken first index bench)
    (least : first ≤ index) (rest : index + count = bench.doc.size) :
    (∃ next after, Sampler.visitFrom rule commit proposals lastWord count index bench =
        .ok next after ∧
      opened.Reporting numTopics lastWord taken first next after ∧ first ≤ next ∧
      next ≤ bench.doc.size ∧
      ∀ word, opened.doc.words[next]? = some word → lastWord < word) ∨
    ∃ fault next after, Sampler.visitFrom rule commit proposals lastWord count index bench =
        .error fault after ∧
      opened.Reporting numTopics lastWord taken first next after ∧ first ≤ next ∧
      next ≤ bench.doc.size ∧
      ∃ change model left, commit change model = .error fault left := by
  induction count generalizing index bench with
  | zero =>
      refine Or.inl ⟨index, bench, rfl, reporting, least, by omega, ?_⟩
      intro word here
      have inside := (Array.getElem?_eq_some_iff.mp here).1
      rw [← reporting.kept.words, Document.size_words] at inside
      omega
  | succ count ih =>
      have inside : index < bench.doc.tokens.size := by
        have size : bench.doc.size = bench.doc.tokens.size := rfl
        omega
      have here := Array.getElem?_eq_getElem inside
      have token : bench.doc.tokens.getD index default = bench.doc.tokens[index] :=
        Arrays.getD_of_getElem? here default
      by_cases beyond : lastWord < bench.doc.tokens[index].word
      · refine Or.inl ⟨index, bench, ?_, reporting, least, by omega, ?_⟩
        · simp only [Sampler.visitFrom, token, if_pos beyond]
        · intro word there
          rw [← reporting.kept.words, Document.words, Array.getElem?_map, here] at there
          exact Option.some.inj there ▸ beyond
      · rcases reporting.visit takes legal rule least here (not_lt.mp beyond) with
          ⟨between, visited, further⟩ | ⟨fault, after, failed, reported, refused⟩
        · have size : between.doc.size = bench.doc.size :=
            further.kept.size.trans reporting.kept.size.symm
          have step : Sampler.visitFrom rule commit proposals lastWord (count + 1) index bench =
              Sampler.visitFrom rule commit proposals lastWord count (index + 1) between := by
            simp only [Sampler.visitFrom, token, if_neg beyond, visited]
          rw [step, ← size]
          exact ih further (by omega) (by omega)
        · refine Or.inr ⟨fault, index, after, ?_, reported, least, by omega, refused⟩
          simp only [Sampler.visitFrom, token, if_neg beyond, failed]

structure Reports (numTopics : Nat) (entry : SliceMeta) (taken : List Change → M → Prop)
    (sampler : Sampler) (doc : Document) (after : Bench M) : Prop where
  words : after.doc.words = doc.words
  topics : ∀ token ∈ after.doc.tokens, token.topic < numTopics
  elsewhere : ∀ position, position < doc.opening entry.id ∨
    doc.opening entry.id + doc.reach entry ≤ position →
    after.doc.tokens[position]? = doc.tokens[position]?
  taken : taken (doc.changes after.doc) after.model
  changed : after.sampler.stats.changed = sampler.stats.changed + (doc.changes after.doc).length

/-- A sweep that fails is one whose change the model refused;
it leaves the cursor where it was and samples nothing. -/
structure Fails (entry : SliceMeta) (commit : Change → Update M Unit) (sampler : Sampler)
    (doc : Document) (fault : Fault) (after : Bench M) : Prop where
  cursor : after.doc.cursor = doc.opening entry.id
  sampled : after.sampler.stats.sampled = sampler.stats.sampled
  refused : ∃ change model left, commit change model = .error fault left

theorem Bench.Reporting.reports {entry : SliceMeta} {sampler : Sampler} {doc : Document}
    (reporting : opened.Reporting numTopics entry.lastWord taken (doc.opening entry.id) index bench)
    (tokens : opened.doc.tokens = doc.tokens)
    (changed : opened.sampler.stats.changed = sampler.stats.changed)
    (least : doc.opening entry.id ≤ index) (most : index ≤ doc.size) :
    Reports numTopics entry taken sampler doc bench := by
  have words : opened.doc.words = doc.words := by rw [Document.words, tokens, Document.words]
  have changes : opened.doc.changes bench.doc = doc.changes bench.doc := by
    rw [Document.changes, tokens, Document.changes]
  have reach := doc.le_reach entry (index - doc.opening entry.id) (by omega)
    fun position word least below here => reporting.passed position word least (by omega)
      (words ▸ here)
  refine ⟨reporting.kept.words.trans words, reporting.poised.topics, ?_,
    changes ▸ reporting.taken, ?_⟩
  · rintro position (earlier | later)
    · exact tokens ▸ reporting.behind position earlier
    · exact tokens ▸ reporting.ahead position (by omega)
  · rw [reporting.changed, changed, changes]

theorem recount_stats {bench after : Bench M} (done : recount bench = .ok () after) :
    after.sampler.stats = bench.sampler.stats := by
  obtain ⟨⟨rng, counter, stats, numTopics, mhStep, alphaSum, priors⟩, doc, model⟩ := bench
  rw [recount] at done
  split at done
  · cases done
    rfl
  · cases done

theorem sweep_reports (takes : Takes numTopics commit taken) {proposals : AliasSlice}
    (legal : proposals.Legal numTopics)
    (rule : Priors Float → TopicCounter → M → Nat → Nat → MoveRule) (entry : SliceMeta)
    {sampler : Sampler} (ready : sampler.Ready numTopics) {doc : Document}
    (small : doc.size < 2147483648) (topics : ∀ token ∈ doc.tokens, token.topic < numTopics)
    (within : doc.opening entry.id ≤ doc.size) (model : M) (held : taken [] model) :
    (∃ visited after, sweep rule commit entry proposals ⟨sampler, doc, model⟩ = .ok visited after ∧
      Reports numTopics entry taken sampler doc after ∧ after.sampler.Ready numTopics ∧
      doc.Resumed entry visited after.doc ∧
      after.sampler.stats.sampled = sampler.stats.sampled + visited) ∨
    ∃ fault after, sweep rule commit entry proposals ⟨sampler, doc, model⟩ = .error fault after ∧
      Reports numTopics entry taken sampler doc after ∧ after.sampler.Ready numTopics ∧
      Fails entry commit sampler doc fault after := by
  let opened : Document := { doc with cursor := doc.opening entry.id }
  have smallOpened : opened.size < 2147483648 := small
  obtain ⟨counted, recounted, poised⟩ :
    ∃ counted, recount ⟨sampler, opened, model⟩ = .ok () ⟨counted, opened, model⟩ ∧
      (⟨counted, opened, model⟩ : Bench M).Poised numTopics :=
        recount_ok ready smallOpened topics trivial
  have stats : counted.stats = sampler.stats := recount_stats recounted
  have begins : (⟨counted, opened, model⟩ : Bench M).Reporting numTopics entry.lastWord taken
      (doc.opening entry.id)
      (doc.opening entry.id) ⟨counted, opened, model⟩ := by
    have none : opened.changes opened = [] := Document.changes_of_tokens rfl
    refine ⟨poised, Document.Kept.refl _, fun _ _ => rfl, fun _ _ => rfl, ?_, ?_, rfl, ?_⟩
    · rw [none]
      exact held
    · rw [none]
      rfl
    · intro position word least below
      omega
  rcases begins.visitFrom takes legal rule (opened.size - opened.cursor) (Nat.le_refl _)
    (Nat.add_sub_of_le within) with
    ⟨next, after, visited, reporting, least, most, stopped⟩ | ⟨fault, next, after, visited,
      reporting, least, most, refused⟩
  · have reports : Reports numTopics entry taken sampler doc after :=
      reporting.reports rfl (congrArg SamplerStats.changed stats) least most
    have resumed : doc.Resumed entry (next - opened.cursor) (after.doc.setCursor next) :=
      Document.resumed_at reports.words least most reporting.passed stopped
    refine Or.inl ⟨next - opened.cursor, finish opened.cursor next after, ?_, ?_, ?_, resumed, ?_⟩
    · simp only [sweep, rewind_eq, recounted, visited, opened]
    · exact ⟨reports.words, reports.topics, reports.elsewhere, reports.taken, reports.changed⟩
    · exact ⟨reporting.poised.sampler.numTopics, reporting.poised.sampler.power⟩
    · exact congrArg (· + (next - opened.cursor))
        (reporting.sampled.trans (congrArg SamplerStats.sampled stats))
  · have reports : Reports numTopics entry taken sampler doc after :=
      reporting.reports rfl (congrArg SamplerStats.changed stats) least most
    refine Or.inr ⟨fault, after, ?_, reports, reporting.poised.sampler,
      reporting.kept.cursor, ?_, refused⟩
    · simp only [sweep, rewind_eq, recounted, visited, opened]
    · exact reporting.sampled.trans (congrArg SamplerStats.sampled stats)

structure Completes (entry : SliceMeta) (sampler : Sampler) (doc : Document) (visited : Nat)
    (after : Bench M) : Prop where
  visited : visited = doc.reach entry
  cursor : after.doc.cursor = doc.opening entry.id + doc.reach entry
  sampled : after.sampler.stats.sampled = sampler.stats.sampled + doc.reach entry
  proposed : after.sampler.stats.proposed = sampler.stats.proposed + 2 * sampler.mhStep *
    doc.reach entry

/-- The outcomes of a sweep over a document that the model
counts, and what is told in each of them. -/
inductive Accounts [TopicCounts M] (numTopics : Nat) (entry : SliceMeta)
    (taken : List Change → M → Prop) (sampler : Sampler) (doc : Document) :
    EStateM.Result Fault (Bench M) Nat → Prop where
  | done {visited : Nat} {after : Bench M}
      (reports : Reports numTopics entry taken sampler doc after)
      (completes : Completes entry sampler doc visited after) :
      Accounts numTopics entry taken sampler doc (.ok visited after)
  | failed {fault : Fault} {after : Bench M}
      (reports : Reports numTopics entry taken sampler doc after)
      (fails : Fails entry TopicCounts.commit sampler doc fault after) :
      Accounts numTopics entry taken sampler doc (.error fault after)

theorem sampleDoc_accounts [TopicCounts M] (takes : Takes numTopics TopicCounts.commit taken)
    {proposals : AliasSlice} (legal : proposals.Legal numTopics) (entry : SliceMeta)
    {sampler : Sampler} (ready : sampler.Ready numTopics) {doc : Document}
    (small : doc.size < 2147483648) (topics : ∀ token ∈ doc.tokens, token.topic < numTopics)
    (within : doc.opening entry.id ≤ doc.size) {model : M} (held : taken [] model) :
    Accounts numTopics entry taken sampler doc (sampleDoc entry proposals ⟨sampler, doc,
        model⟩) := by
  rcases sweep_reports takes legal trainingRule entry ready small topics within model held with
    ⟨visited, after, done, reports, _⟩ | ⟨fault, after, failed, reports, _, fails⟩
  · have sampled : sampleDoc entry proposals ⟨sampler, doc, model⟩ = .ok visited after := done
    obtain ⟨resumed, worked, _⟩ := sampleDoc_resumed within sampled
    have reach := resumed.reach
    rw [sampled]
    refine .done reports ⟨reach.symm, ?_, ?_, ?_⟩
    · rw [resumed.cursor, reach]
    · rw [worked.sampled, reach]
    · rw [worked.proposed, reach]
  · have sampled : sampleDoc entry proposals ⟨sampler, doc, model⟩ = .error fault after := failed
    rw [sampled]
    exact .failed reports fails

end Sampler

/-- Whether a sweep succeeds or fails, and whatever the view counts, the changes that the view has
recorded are those of the document's tokens, and they are what the statistics count. -/
theorem changes_accounted {terms : List (Nat × Nat)} {numTopics loadFactor : Nat}
    {vocab : Vocabulary} (made : Vocabulary.ofFrequencies terms numTopics loadFactor = .ok vocab)
    (limits : Cells) {store : Store} (reached : Store.Reachable (vocab.slice limits) store)
    {id : Nat} {run : SliceMeta} {slice : Slice}
    (there : (vocab.slice limits).slices[id]? = some run) (here : store.slices[id]? = some slice)
    (topics : ∀ word topic, slice.count word topic ≠ 0 → topic < numTopics) {summary : Summary}
    (size : summary.numTopics = numTopics) (beta betaSum : Float) {sampler : Sampler}
    (ready : sampler.Ready numTopics) {doc : Document} (small : doc.size < 2147483648)
    (below : ∀ token ∈ doc.tokens, token.topic < numTopics) (within : doc.cursor ≤ doc.size) :
    let proposals := AliasSlice.build (vocab.slice limits) run slice summary beta betaSum
    (∀ view : InPlace, view.recording = true →
      Sampler.Accounts numTopics run (InPlace.Recorded view.events.toList) sampler doc
        (Sampler.sampleDoc run proposals ⟨sampler, doc, view⟩)) ∧
      ∀ view : Overlay, Sampler.Accounts numTopics run
        (Overlay.Recorded view.log.events.toList) sampler doc
        (Sampler.sampleDoc run proposals ⟨sampler, doc, view⟩) := by
  intro proposals
  have lawful := Vocabulary.lawful_of_frequencies made limits
  obtain ⟨valid, shape⟩ := (reached.fits lawful).shapes id slice run here there
  have confined : slice.Confined numTopics := ⟨valid, topics⟩
  have legal := confined.build_legal shape size beta betaSum
  have opening : doc.opening run.id ≤ doc.size :=
    (doc.opening_le run.id doc.size).mpr fun _ => within
  constructor
  · intro view recording
    exact Sampler.sampleDoc_accounts (InPlace.takes_recorded numTopics view.events.toList)
      legal run ready small below opening
      ⟨recording, (List.append_nil _).symm⟩
  · intro view
    exact Sampler.sampleDoc_accounts (Overlay.takes_recorded numTopics view.log.events.toList)
      legal run ready small below
      opening (List.append_nil _).symm

/-- A document with two tokens of the rare word, and a view that counts one. -/
theorem changes_accounted_mixed :
    let vocab := Vocabulary.slice ⟨0, 0⟩ ⟨12, #[⟨3, 8, .dense, true⟩, ⟨9, 1, .sparse 2, false⟩],
        #[⟨0, 3, 9, 0, 2⟩]⟩
    let run : SliceMeta := ⟨0, 3, 9, 0, 2⟩
    let slice := Update.left (Slice.add 9 5 1) (Slice.ofVocabulary vocab run)
    let doc : Document := ⟨#[⟨9, 5⟩, ⟨9, 5⟩], 1⟩
    let sampler := Sampler.ofSettings { numTopics := 12 } (Xorshift.ofSeed 1)
    let proposals := AliasSlice.build vocab run slice (Summary.zero 12) 0.01 0.02
    Sampler.Accounts 12 run (InPlace.Recorded []) sampler doc
        (Sampler.sampleDoc run proposals ⟨sampler, doc,
          InPlace.start slice (Summary.zero 12) true⟩) ∧
      Sampler.Accounts 12 run (Overlay.Recorded []) sampler doc
        (Sampler.sampleDoc run proposals ⟨sampler, doc,
          Overlay.start slice (Summary.zero 12)⟩) := by
  intro vocab run slice doc sampler proposals
  obtain ⟨there, confined, _, _, store, reached, here⟩ := Store.exists_mixed
  have power : sampler.counter.capacity.isPowerOfTwo := by
    have capacity : sampler.counter.capacity = (1024 : Nat).nextPowerOfTwo := Array.size_replicate
    exact capacity ▸ Nat.isPowerOfTwo_nextPowerOfTwo _
  obtain ⟨inPlace, overlay⟩ :=
    changes_accounted Vocabulary.ofFrequencies_mixed ⟨0, 0⟩ reached there here confined.topics
    (show (Summary.zero 12).numTopics = 12 by decide) 0.01 0.02
      (show sampler.Ready 12 from ⟨rfl, power⟩)
    (show doc.size < 2147483648 by decide) (by decide) (by decide)
  exact ⟨inPlace (InPlace.start slice (Summary.zero 12) true) rfl,
    overlay (Overlay.start slice (Summary.zero 12))⟩

end LatentTopics
