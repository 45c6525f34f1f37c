import Mathlib
import LatentTopics.Proofs.Sampler.Chains
import LatentTopics.Proofs.Sampler.Visits

/-! Sweeps. A sweep over the tokens of one slice succeeds on every
model that takes changes of tokens which it holds, whatever is drawn:
the document's counts follow its tokens, and so does the model. -/
namespace LatentTopics

/-- A model that holds tokens in some sense, and takes a
change of any of them that is one of these words. -/
def Serves {M : Type} [TopicCounts M] (words : Array Nat) (numTopics : Nat)
    (holds : Multiset Token → M → Prop) : Prop :=
  ∀ (tokens : Multiset Token) (model : M) (change : Change), holds tokens model →
    change.word ∈ words →
    change.source ∈ tokens → change.new < numTopics →
    ∃ next, TopicCounts.commit change model = .ok () next ∧ holds (Tokens.move change tokens) next

/-- A document in front of a slice: of its words from the cursor
on, those up to the last one of the slice belong to the slice. -/
structure Document.Waits (words : Array Nat) (numTopics : Nat) (entry : SliceMeta)
    (doc : Document) : Prop where
  sorted : doc.Sorted
  small : doc.size < 2147483648
  topics : ∀ token ∈ doc.tokens, token.topic < numTopics
  owned : ∀ position word, (entry.id ≠ 0 → doc.cursor ≤ position) →
    doc.words[position]? = some word →
    word ≤ entry.lastWord → word ∈ words

structure Document.Swept (numTopics : Nat) (entry : SliceMeta)
    (before after : Document) : Prop where
  words : after.words = before.words
  topics : ∀ token ∈ after.tokens, token.topic < numTopics
  passed : ∀ position word, after.cursor ≤ position → before.words[position]? = some word →
    entry.lastWord < word ∧ (entry.id ≠ 0 → before.cursor ≤ position)

namespace Sampler

structure Ready (numTopics : Nat) (sampler : Sampler) : Prop where
  numTopics : sampler.numTopics = numTopics
  power : sampler.counter.capacity.isPowerOfTwo

variable {M : Type}

/-- In the middle of a sweep: the counter counts the document, with room for its topics, and the
model holds its tokens beside others. -/
structure Bench.Ready (numTopics : Nat) (holds : Multiset Token → M → Prop)
    (others : Multiset Token) (bench : Bench M) : Prop where
  sampler : bench.sampler.Ready numTopics
  counter : bench.sampler.counter.Tallies bench.doc.topics
  room : bench.doc.size ≠ 0 → min bench.doc.size numTopics < bench.sampler.counter.capacity
  small : bench.doc.size < 2147483648
  topics : ∀ token ∈ bench.doc.tokens, token.topic < numTopics
  model : holds (bench.doc.tokens.toList + others) bench.model

variable {numTopics : Nat} {holds : Multiset Token → M → Prop} {others : Multiset Token}

theorem recount_ok {sampler : Sampler} (ready : sampler.Ready numTopics) {doc : Document}
    (small : doc.size < 2147483648) (topics : ∀ token ∈ doc.tokens, token.topic < numTopics)
    {model : M} (held : holds (doc.tokens.toList + others) model) :
    ∃ counted, recount ⟨sampler, doc, model⟩ = .ok () ⟨counted, doc, model⟩ ∧
      (⟨counted, doc, model⟩ : Bench M).Ready numTopics holds others := by
  obtain ⟨rng, counter, stats, samplerTopics, mhStep, alphaSum, priors⟩ := sampler
  obtain rfl : samplerTopics = numTopics := ready.numTopics
  obtain ⟨counted, rebuilt, tallies, power, room⟩ :=
    TopicCounter.rebuild_ok ready.power topics small
  have rebuilt' : TopicCounter.rebuild doc samplerTopics counter = .ok () counted := rebuilt
  refine ⟨⟨rng, counted, stats, samplerTopics, mhStep, alphaSum, priors⟩, ?_, ⟨rfl, power⟩, tallies,
    room, small, topics, held⟩
  simp only [recount, rebuilt']

abbrev Bench.Poised (numTopics : Nat) (bench : Bench M) : Prop :=
  bench.Ready numTopics (fun _ _ => True) 0

theorem Bench.Ready.poised {bench : Bench M} (ready : bench.Ready numTopics holds others) :
    bench.Poised numTopics :=
  ⟨ready.sampler, ready.counter, ready.room, ready.small, ready.topics, trivial⟩

theorem Bench.Poised.ready {bench : Bench M} (poised : bench.Poised numTopics)
    (held : holds (bench.doc.tokens.toList + others) bench.model) :
    bench.Ready numTopics holds others :=
  ⟨poised.sampler, poised.counter, poised.room, poised.small, poised.topics, held⟩

structure Bench.Changed (numTopics index topic : Nat) (next : M)
    (before after : Bench M) : Prop where
  doc : after.doc = before.doc.setTopic index topic
  model : after.model = next
  stats : after.sampler.stats = { before.sampler.stats with changed :=
    before.sampler.stats.changed + 1 }
  poised : after.Poised numTopics

theorem applyChange_cases (commit : Change → Update M Unit) {bench : Bench M}
    (poised : bench.Poised numTopics) {index topic : Nat} {token : Token}
    (here : bench.doc.tokens[index]? = some token) (below : topic < numTopics) :
    (∃ next after, commit ⟨token.word, token.topic, topic⟩ bench.model = .ok () next ∧
      applyChange commit index ⟨token.word, token.topic, topic⟩ bench = .ok () after ∧
      bench.Changed numTopics index topic next after) ∨
    ∃ fault next, commit ⟨token.word, token.topic, topic⟩ bench.model = .error fault next ∧
      applyChange commit index ⟨token.word, token.topic, topic⟩ bench = .error fault ⟨bench.sampler,
        bench.doc, next⟩ := by
  obtain ⟨⟨rng, counter, stats, samplerTopics, mhStep, alphaSum, priors⟩, doc, model⟩ := bench
  obtain ⟨⟨same, power⟩, tallies, room, small, topics, _⟩ := poised
  dsimp only at same power tallies room small topics here ⊢
  cases committed : commit ⟨token.word, token.topic, topic⟩ model with
  | error fault next =>
      refine Or.inr ⟨fault, next, rfl, ?_⟩
      simp only [applyChange, bind, EStateM.bind, runCommit, committed]
  | ok _ next =>
      have inDoc : token ∈ doc.tokens := Array.mem_of_getElem? here
      -- The counter was made for this document, so that it has a slot for whatever topic comes.
      have spare : doc.topics.toFinset.card < counter.capacity :=
        (Document.card_topics_toFinset_le topics).trans_lt
          (room (Nat.ne_of_gt (Array.size_pos_of_mem inDoc)))
      have oldTopic : token.topic ∈ doc.topics :=
        Multiset.mem_map_of_mem Token.topic (Multiset.mem_coe.mpr (Array.mem_toList_iff.mpr inDoc))
      obtain ⟨lowered, raised, taken, put, moved, size⟩ :=
        tallies.move oldTopic topic spare (doc.card_topics.trans_lt small)
      have kept := doc.kept_setTopic index topic
      refine Or.inl ⟨next,
        ⟨⟨rng, raised, { stats with changed := stats.changed + 1 }, samplerTopics, mhStep, alphaSum,
        priors⟩, doc.setTopic index topic, next⟩, rfl, ?_, rfl, rfl, rfl, ⟨same, size ▸ power⟩, ?_,
        ?_, ?_, ?_, trivial⟩
      · simp only [applyChange, bind, EStateM.bind, runCommit, committed, moveInCounter, taken,
          put, writeTopic]
      · rw [← doc.topics_setTopic here topic] at moved
        exact moved
      · dsimp only
        rw [kept.size, size]
        exact room
      · dsimp only
        rw [kept.size]
        exact small
      · intro other member
        rcases Document.mem_setTopic member with old | rfl
        · exact topics other old
        · exact below

structure Bench.Drew (before after : Bench M) : Prop where
  doc : after.doc = before.doc
  model : after.model = before.model
  counter : after.sampler.counter = before.sampler.counter
  numTopics : after.sampler.numTopics = before.sampler.numTopics
  sampled : after.sampler.stats.sampled = before.sampler.stats.sampled
  changed : after.sampler.stats.changed = before.sampler.stats.changed

theorem Bench.Drew.sampler {before after : Bench M} (drew : before.Drew after)
    (ready : before.sampler.Ready numTopics) :
    after.sampler.Ready numTopics :=
  ⟨drew.numTopics.trans ready.numTopics, drew.counter.symm ▸ ready.power⟩

theorem Bench.Drew.ready {before after : Bench M} (drew : before.Drew after)
    (ready : before.Ready numTopics holds others) :
    after.Ready numTopics holds others := by
  have sampler := drew.sampler ready.sampler
  obtain ⟨⟨rng, counter, stats, topics, mhStep, alphaSum, priors⟩, doc, model⟩ := after
  obtain ⟨rfl, rfl, rfl, _, _, _⟩ := drew
  exact { ready with sampler := sampler }

theorem visit_cases (commit : Change → Update M Unit) {proposals : AliasSlice}
    (legal : proposals.Legal numTopics)
    (rule : Priors Float → TopicCounter → M → Nat → Nat → MoveRule) {bench : Bench M}
    (ready : bench.sampler.Ready numTopics)
    (topics : ∀ token ∈ bench.doc.tokens, token.topic < numTopics) {index : Nat} {token : Token}
    (here : bench.doc.tokens[index]? = some token) :
    ∃ drawn, bench.Drew drawn ∧ (visit rule commit proposals index token bench = .ok () drawn ∨
      ∃ topic < numTopics, topic ≠ token.topic ∧ visit rule commit proposals index token bench =
        applyChange commit index ⟨token.word, token.topic, topic⟩ drawn) := by
  obtain ⟨sampler, doc, model⟩ := bench
  have old : token.topic < numTopics := topics token (Array.mem_of_getElem? here)
  obtain ⟨⟨topic, rng, stats⟩, drawn, below⟩ : ∃ chain,
      resample rule proposals sampler doc model token = some chain ∧ chain.topic < numTopics := by
    rw [resample, ready.numTopics]
    exact Chain.rounds_lt legal (Nat.zero_lt_of_lt old) topics token.word _ _ _ old
  refine ⟨⟨{ sampler with rng := rng, stats := stats }, doc, model⟩, ⟨rfl, rfl, rfl, rfl,
    (Chain.rounds_tried _ _ _ _ _ _ _ drawn).sampled, Chain.rounds_changed _ _ _ _ _ _ _ drawn⟩, ?_⟩
  by_cases same : topic = token.topic
  · refine Or.inl ?_
    simp only [visit, drawn, if_pos same]
  · refine Or.inr ⟨topic, below, same, ?_⟩
    simp only [visit, drawn, if_neg same]

section Sweep

variable [TopicCounts M] {words : Array Nat}

theorem applyChange_ok (serves : Serves words numTopics holds) {bench : Bench M}
    (ready : bench.Ready numTopics holds others) {index topic : Nat} {token : Token}
    (here : bench.doc.tokens[index]? = some token) (own : token.word ∈ words)
    (below : topic < numTopics) :
    ∃ after, applyChange TopicCounts.commit index ⟨token.word, token.topic, topic⟩ bench =
        .ok () after ∧
      after.Ready numTopics holds others ∧ bench.doc.Kept after.doc := by
  let change : Change := ⟨token.word, token.topic, topic⟩
  have source : change.source ∈ (bench.doc.tokens.toList : Multiset Token) :=
    Multiset.mem_coe.mpr (Array.mem_toList_iff.mpr (Array.mem_of_getElem? here))
  obtain ⟨next, committed, held⟩ : ∃ next, TopicCounts.commit change bench.model = .ok () next ∧
      holds (Tokens.move change (bench.doc.tokens.toList + others)) next :=
    serves _ bench.model change ready.model own (Multiset.mem_add.mpr (Or.inl source)) below
  rcases applyChange_cases TopicCounts.commit ready.poised here below with
    ⟨taken, after, accepted, applied, doc, model, _, poised⟩ | ⟨fault, refused, failed, _⟩
  · obtain rfl : next = taken := by
      rw [committed] at accepted
      cases accepted
      rfl
    refine ⟨after, applied, poised.ready ?_, doc ▸ bench.doc.kept_setTopic index topic⟩
    rw [doc, model, bench.doc.tokens_setTopic here topic, ← Tokens.move_add source]
    exact held
  · rw [committed] at failed
    cases failed

theorem visit_ok (serves : Serves words numTopics holds) {proposals : AliasSlice}
    (legal : proposals.Legal numTopics)
    (rule : Priors Float → TopicCounter → M → Nat → Nat → MoveRule) {bench : Bench M}
    (ready : bench.Ready numTopics holds others) {index : Nat} {token : Token}
    (here : bench.doc.tokens[index]? = some token) (own : token.word ∈ words) :
    ∃ after, visit rule TopicCounts.commit proposals index token bench = .ok () after ∧
      after.Ready numTopics holds others ∧ bench.doc.Kept after.doc := by
  obtain ⟨drawn, drew, outcome⟩ :=
    visit_cases TopicCounts.commit legal rule ready.sampler ready.topics here
  have redrawn := drew.ready ready
  rw [← drew.doc] at here ⊢
  rcases outcome with stays | ⟨topic, below, _, visited⟩
  · exact ⟨drawn, stays, redrawn, Document.Kept.refl drawn.doc⟩
  · obtain ⟨after, changed, readyAfter, kept⟩ := applyChange_ok serves redrawn here own below
    exact ⟨after, visited.trans changed, readyAfter, kept⟩

theorem visitFrom_ok (serves : Serves words numTopics holds) {proposals : AliasSlice}
    (legal : proposals.Legal numTopics)
    (rule : Priors Float → TopicCounter → M → Nat → Nat → MoveRule) (lastWord count : Nat)
    {index : Nat} {bench : Bench M} (ready : bench.Ready numTopics holds others)
    (rest : count = bench.doc.size - index)
    (owned : ∀ position word, index ≤ position → bench.doc.words[position]? = some word →
      word ≤ lastWord → word ∈ words) :
    ∃ next after, visitFrom rule TopicCounts.commit proposals lastWord count index bench =
        .ok next after ∧
      after.Ready numTopics holds others ∧ bench.doc.Kept after.doc ∧ index ≤ next ∧
      ∀ word, bench.doc.words[next]? = some word → lastWord < word := by
  induction count generalizing index bench with
  | zero =>
      refine ⟨index, bench, rfl, ready, Document.Kept.refl _, Nat.le_refl index, ?_⟩
      intro word here
      have inside := (Array.getElem?_eq_some_iff.mp here).1
      rw [Document.size_words] at inside
      omega
  | succ count ih =>
      have inside : index < bench.doc.tokens.size := Nat.lt_of_sub_eq_succ rest.symm
      have here := Array.getElem?_eq_getElem inside
      have there : bench.doc.words[index]? = some bench.doc.tokens[index].word := by
        rw [Document.words, Array.getElem?_map, here]
        rfl
      have token : bench.doc.tokens.getD index default = bench.doc.tokens[index] :=
        Arrays.getD_of_getElem? here default
      -- The words of a document are in order, so that a word beyond the slice ends the sweep.
      by_cases beyond : lastWord < bench.doc.tokens[index].word
      · refine ⟨index, bench, ?_, ready, Document.Kept.refl _, Nat.le_refl index, ?_⟩
        · simp only [visitFrom, token, if_pos beyond]
        · intro word same
          rw [there] at same
          exact Option.some.inj same ▸ beyond
      · obtain ⟨between, visited, readyBetween, kept⟩ := visit_ok serves legal rule ready here
          (owned index _ (Nat.le_refl index) there (not_lt.mp beyond))
        have size := kept.size
        have ownedRest : ∀ position word, index + 1 ≤ position →
            between.doc.words[position]? = some word →
            word ≤ lastWord → word ∈ words := by
          rw [kept.words]
          exact fun position word later => owned position word (by omega)
        obtain ⟨next, after, swept, readyAfter, keptAfter, further, last⟩ :=
          ih readyBetween (by omega) ownedRest
        rw [kept.words] at last
        refine ⟨next, after, ?_, readyAfter, kept.trans keptAfter, by omega, last⟩
        simp only [visitFrom, token, if_neg beyond, visited]
        exact swept

theorem sweep_ok (serves : Serves words numTopics holds) {proposals : AliasSlice}
    (legal : proposals.Legal numTopics)
    (rule : Priors Float → TopicCounter → M → Nat → Nat → MoveRule) (entry : SliceMeta)
    {sampler : Sampler} (ready : sampler.Ready numTopics) {doc : Document}
    (waits : doc.Waits words numTopics entry) {model : M}
    (held : holds (doc.tokens.toList + others) model) :
    ∃ visited after, sweep rule TopicCounts.commit entry proposals ⟨sampler, doc, model⟩ =
        .ok visited after ∧
      after.sampler.Ready numTopics ∧ doc.Swept numTopics entry after.doc ∧
      holds (after.doc.tokens.toList + others) after.model := by
  let opened : Document := { doc with cursor := doc.opening entry.id }
  have small : opened.size < 2147483648 := waits.small
  obtain ⟨counted, recounted, benchReady⟩ := recount_ok ready small waits.topics held
  have owned : ∀ position word, opened.cursor ≤ position → opened.words[position]? = some word →
      word ≤ entry.lastWord → word ∈ words :=
    fun position word later =>
      waits.owned position word ((doc.opening_le entry.id position).mp later)
  obtain ⟨next, after, swept, readyAfter, kept, further, last⟩ :=
    visitFrom_ok serves legal rule entry.lastWord
    (opened.size - opened.cursor) benchReady rfl owned
  refine ⟨next - opened.cursor, finish opened.cursor next after, ?_,
    ⟨readyAfter.sampler.numTopics, readyAfter.sampler.power⟩, ⟨kept.words, readyAfter.topics, ?_⟩,
    readyAfter.model⟩
  · simp only [sweep, rewind_eq, recounted, swept, opened]
  · intro position word reached here
    have inside : position < doc.size := by
      rw [← Document.size_words]
      exact (Array.getElem?_eq_some_iff.mp here).1
    -- The new cursor is cut off at the end of the document, where there is no word any more.
    have cursor : min next after.doc.size ≤ position := reached
    have sizeAfter : after.doc.size = doc.size := kept.size
    have later : next ≤ position := by omega
    have there := Array.getElem?_eq_getElem (lt_of_le_of_lt later (doc.size_words.symm ▸ inside))
    exact ⟨(last _ there).trans_le (waits.sorted.le later there here),
      (doc.opening_le entry.id position).mp (further.trans later)⟩

end Sweep

end Sampler

end LatentTopics
