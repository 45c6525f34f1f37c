import Mathlib
import LatentTopics.Proofs.Sampler.Sweeps

/-! Two models side by side. They are tied by the tokens that both hold: they show equal counts, and
take the same changes. A sampler that sweeps one document over each of them then goes through the
same draws, moves and faults, because it knows a model by its counts alone. -/
namespace LatentTopics

/-- Two updates end alike: with one value or with one fault, in states that go together. -/
def Update.Matched {σ τ α : Type} (done failed : σ → τ → Prop) (first : EStateM.Result Fault σ α)
    (second : EStateM.Result Fault τ α) : Prop :=
  (∃ value here there, first = .ok value here ∧ second = .ok value there ∧ done here there) ∨
    ∃ fault here there, first = .error fault here ∧ second = .error fault there ∧ failed here there

section Matched

variable {σ τ α β : Type} {done failed : σ → τ → Prop}

theorem Update.Matched.imp_failed {failed' : σ → τ → Prop} {first : EStateM.Result Fault σ α}
    {second : EStateM.Result Fault τ α} (matched : Update.Matched done failed first second)
    (weaker : ∀ here there, failed here there → failed' here there) :
    Update.Matched done failed' first second := by
  rcases matched with ended | ⟨fault, here, there, broke, broke', after⟩
  · exact Or.inl ended
  · exact Or.inr ⟨fault, here, there, broke, broke', weaker here there after⟩

theorem Update.Matched.bind {between : σ → τ → Prop} {first : Update σ α} {second : Update τ α}
    {next : α → Update σ β} {next' : α → Update τ β} {here : σ} {there : τ}
    (matched : Update.Matched between failed (first here) (second there))
    (onward : ∀ value here there, between here there →
      Update.Matched done failed (next value here) (next' value there)) :
    Update.Matched done failed ((first >>= next) here) ((second >>= next') there) := by
  simp only [Bind.bind, EStateM.bind]
  rcases matched with ⟨value, here', there', ended, ended', after⟩ | ⟨fault, here', there', broke,
    broke', after⟩
  · rw [ended, ended']
    exact onward value here' there' after
  · rw [broke, broke']
    exact Or.inr ⟨fault, here', there', rfl, rfl, after⟩

end Matched

/-- Models that show equal counts and answer every change of a token that they hold alike. -/
structure Lockstep {M N : Type} [TopicCounts M] [TopicCounts N] (numTopics : Nat)
    (tied : Multiset Token → M → N → Prop) : Prop where
  wordCounts : ∀ (tokens : Multiset Token) (here : M) (there : N), tied tokens here there →
    ∀ word topic,
    TopicCounts.wordCount here word topic = TopicCounts.wordCount there word topic
  totals : ∀ (tokens : Multiset Token) (here : M) (there : N), tied tokens here there → ∀ topic,
    TopicCounts.total here topic = TopicCounts.total there topic
  commits : ∀ (tokens : Multiset Token) (here : M) (there : N) (change : Change),
    tied tokens here there →
    change.source ∈ tokens → change.new < numTopics →
    Update.Matched (tied (Tokens.move change tokens)) (tied tokens) (TopicCounts.commit change here)
      (TopicCounts.commit change there)

namespace Sampler

/-- A rule that weighs moves by the tallies of topics, in any way. -/
def weighed (weigh : Priors Float → (Nat → Tally) → Nat → MoveRule) {M : Type} [TopicCounts M]
    (priors : Priors Float) (counter : TopicCounter) (model : M) (word old : Nat) : MoveRule :=
  weigh priors (tally counter model word) old

/-- How training weighs them: with these weights the sweep is that of `sampleDoc`. -/
def trainingWeights (priors : Priors Float) (tally : Nat → Tally) (old : Nat) : MoveRule where
  byWord := priors.acceptance tally priors.wordProposal old
  byDoc := priors.acceptance tally priors.docProposal old

variable {M N : Type}

/-- Two benches with the same sampler and the same document,
whose models hold its tokens beside others. -/
structure Bench.Tied (numTopics : Nat) (tied : Multiset Token → M → N → Prop)
    (others : Multiset Token) (size : Nat) (here : Bench M) (there : Bench N) : Prop where
  sampler : here.sampler = there.sampler
  doc : here.doc = there.doc
  topics : ∀ token ∈ here.doc.tokens, token.topic < numTopics
  models : tied (here.doc.tokens.toList + others) here.model there.model
  numTopics : here.sampler.numTopics = numTopics
  size : here.doc.size = size

/-- Two benches that are level, whatever tokens their models hold beside the others: a change that
was broken off may have moved a token in the models only. -/
structure Bench.Level (numTopics : Nat) (tied : Multiset Token → M → N → Prop)
    (others : Multiset Token) (here : Bench M) (there : Bench N) : Prop where
  sampler : here.sampler = there.sampler
  doc : here.doc = there.doc
  models : ∃ mine : Multiset Token, tied (mine + others) here.model there.model
  numTopics : here.sampler.numTopics = numTopics

/-- Two benches in the midst of a change. They share the sampler
and the document, and their models hold these tokens. -/
structure Bench.Amid (numTopics : Nat) (tied : Multiset Token → M → N → Prop) (doc : Document)
    (tokens : Multiset Token) (here : Bench M) (there : Bench N) : Prop where
  sampler : here.sampler = there.sampler
  ownDoc : here.doc = doc
  otherDoc : there.doc = doc
  models : tied tokens here.model there.model
  numTopics : here.sampler.numTopics = numTopics

variable {numTopics size : Nat} {tied : Multiset Token → M → N → Prop} {others : Multiset Token}

theorem Bench.Amid.level {doc : Document} {mine : Multiset Token} {here : Bench M} {there : Bench N}
    (amid : Bench.Amid numTopics tied doc (mine + others) here there) :
    Bench.Level numTopics tied others here there :=
  ⟨amid.sampler, amid.ownDoc.trans amid.otherDoc.symm, ⟨mine, amid.models⟩, amid.numTopics⟩

theorem moveInCounter_matched {doc : Document} {tokens : Multiset Token} {here : Bench M}
    {there : Bench N} (amid : Bench.Amid numTopics tied doc tokens here there) (topic : Nat)
    (delta : Int) :
    Update.Matched (Bench.Amid numTopics tied doc tokens) (Bench.Amid numTopics tied doc tokens)
      (moveInCounter topic delta here) (moveInCounter topic delta there) := by
  obtain ⟨⟨rng, counter, stats, samplerTopics, mhStep, alphaSum, priors⟩, _, first⟩ := here
  obtain ⟨_, _, second⟩ := there
  obtain ⟨sampler, ownDoc, otherDoc, models, same⟩ := amid
  dsimp only at sampler ownDoc otherDoc models same
  subst sampler ownDoc otherDoc
  simp only [moveInCounter]
  cases TopicCounter.add topic delta counter with
  | error fault moved => exact Or.inr ⟨fault, _, _, rfl, rfl, rfl, rfl, rfl, models, same⟩
  | ok _ moved => exact Or.inl ⟨(), _, _, rfl, rfl, rfl, rfl, rfl, models, same⟩

variable [TopicCounts M] [TopicCounts N]

theorem runCommit_matched (lockstep : Lockstep numTopics tied) {doc : Document}
    {tokens : Multiset Token} {here : Bench M} {there : Bench N}
    (amid : Bench.Amid numTopics tied doc tokens here there) {change : Change}
    (source : change.source ∈ tokens) (below : change.new < numTopics) :
    Update.Matched (Bench.Amid numTopics tied doc (Tokens.move change tokens))
        (Bench.Amid numTopics tied doc tokens)
      (runCommit TopicCounts.commit change here) (runCommit TopicCounts.commit change there) := by
  rcases lockstep.commits tokens here.model there.model change amid.models source below with
    ⟨_, first, second, done, done', models⟩ | ⟨fault, first, second, refused, refused', models⟩
  · simp only [runCommit, done, done']
    exact Or.inl ⟨(), _, _, rfl, rfl, amid.sampler, amid.ownDoc, amid.otherDoc, models,
      amid.numTopics⟩
  · simp only [runCommit, refused, refused']
    exact Or.inr ⟨fault, _, _, rfl, rfl, amid.sampler, amid.ownDoc, amid.otherDoc, models,
      amid.numTopics⟩

theorem applyChange_matched (lockstep : Lockstep numTopics tied) {here : Bench M} {there : Bench N}
    (benches : Bench.Tied numTopics tied others size here there) {index topic : Nat} {token : Token}
    (own : here.doc.tokens[index]? = some token) (below : topic < numTopics) :
    Update.Matched (Bench.Tied numTopics tied others size) (Bench.Level numTopics tied others)
      (applyChange TopicCounts.commit index ⟨token.word, token.topic, topic⟩ here)
      (applyChange TopicCounts.commit index ⟨token.word, token.topic, topic⟩ there) := by
  let change : Change := ⟨token.word, token.topic, topic⟩
  have source : change.source ∈ (here.doc.tokens.toList : Multiset Token) :=
    Multiset.mem_coe.mpr (Array.mem_toList_iff.mpr (Array.mem_of_getElem? own))
  have amid : Bench.Amid numTopics tied here.doc (here.doc.tokens.toList + others) here there :=
    ⟨benches.sampler, rfl, benches.doc.symm, benches.models, benches.numTopics⟩
  have committed := runCommit_matched lockstep amid (Multiset.mem_add.mpr (Or.inl source)) below
  rw [Tokens.move_add source] at committed
  -- The model comes first. What follows it is a matter of the counter, which both benches share.
  refine (committed.imp_failed fun _ _ => Bench.Amid.level).bind fun _ _ _ amid => ?_
  refine ((moveInCounter_matched amid change.old (-1)).imp_failed fun _ _ => Bench.Amid.level).bind
    fun _ _ _ amid => ?_
  refine ((moveInCounter_matched amid change.new 1).imp_failed fun _ _ => Bench.Amid.level).bind
    fun _ written written' amid => ?_
  obtain ⟨sampler, _, first⟩ := written
  obtain ⟨_, _, second⟩ := written'
  obtain ⟨shared, ownDoc, otherDoc, models, same⟩ := amid
  dsimp only at shared ownDoc otherDoc models same
  subst shared ownDoc otherDoc
  have topicsAfter : ∀ other ∈ (here.doc.setTopic index topic).tokens, other.topic < numTopics := by
    intro other member
    rcases Document.mem_setTopic member with old | rfl
    · exact benches.topics other old
    · exact below
  rw [← here.doc.tokens_setTopic own topic] at models
  exact Or.inl ⟨(), _, _, rfl, rfl, rfl, rfl, topicsAfter, models, same,
    (here.doc.kept_setTopic index topic).size.trans benches.size⟩

theorem resample_eq (lockstep : Lockstep numTopics tied) {tokens : Multiset Token}
    {first : M} {second : N} (models : tied tokens first second)
    (weigh : Priors Float → (Nat → Tally) → Nat → MoveRule) (proposals : AliasSlice)
    (sampler : Sampler) (doc : Document) (token : Token) :
    resample (weighed weigh) proposals sampler doc first token = resample (weighed weigh)
        proposals sampler doc second token := by
  have same : tally sampler.counter first token.word = tally sampler.counter second token.word := by
    funext topic
    rw [tally, tally, lockstep.wordCounts _ _ _ models, lockstep.totals _ _ _ models]
  rw [resample, resample, weighed, weighed, same]

theorem visit_matched (lockstep : Lockstep numTopics tied)
    (weigh : Priors Float → (Nat → Tally) → Nat → MoveRule) {proposals : AliasSlice}
    (legal : proposals.Legal numTopics) {here : Bench M} {there : Bench N}
    (benches : Bench.Tied numTopics tied others size here there) {index : Nat} {token : Token}
    (own : here.doc.tokens[index]? = some token) :
    Update.Matched (Bench.Tied numTopics tied others size) (Bench.Level numTopics tied others)
      (visit (weighed weigh) TopicCounts.commit proposals index token here)
      (visit (weighed weigh) TopicCounts.commit proposals index token there) := by
  obtain ⟨sampler, doc, first⟩ := here
  obtain ⟨sampler', doc', second⟩ := there
  obtain ⟨sameSampler, sameDoc, topics, models, same, sized⟩ := benches
  dsimp only at sameSampler sameDoc topics models same sized own
  subst sameSampler sameDoc
  have old : token.topic < numTopics := topics token (Array.mem_of_getElem? own)
  obtain ⟨⟨topic, rng, stats⟩, drawn, below⟩ : ∃ chain,
      resample (weighed weigh) proposals sampler doc first token = some chain ∧
        chain.topic < numTopics := by
    rw [resample, same]
    exact Chain.rounds_lt legal (Nat.zero_lt_of_lt old) topics token.word _ _ _ old
  have drawn' := (resample_eq lockstep models weigh proposals sampler doc token).symm.trans drawn
  let drew : Sampler := { sampler with rng := rng, stats := stats }
  have tied' : Bench.Tied numTopics tied others size ⟨drew, doc, first⟩ ⟨drew, doc, second⟩ :=
    ⟨rfl, rfl, topics, models, same, sized⟩
  simp only [visit, drawn, drawn']
  by_cases stays : topic = token.topic
  · rw [if_pos stays, if_pos stays]
    exact Or.inl ⟨(), _, _, rfl, rfl, tied'⟩
  · rw [if_neg stays, if_neg stays]
    exact applyChange_matched lockstep tied' own below

theorem visitFrom_matched (lockstep : Lockstep numTopics tied)
    (weigh : Priors Float → (Nat → Tally) → Nat → MoveRule) {proposals : AliasSlice}
    (legal : proposals.Legal numTopics) (lastWord count : Nat) {index : Nat} {here : Bench M}
    {there : Bench N} (benches : Bench.Tied numTopics tied others size here there)
    (rest : count = size - index) :
    Update.Matched (Bench.Tied numTopics tied others size) (Bench.Level numTopics tied others)
      (visitFrom (weighed weigh) TopicCounts.commit proposals lastWord count index here)
      (visitFrom (weighed weigh) TopicCounts.commit proposals lastWord count index there) := by
  induction count generalizing index here there with
  | zero => exact Or.inl ⟨index, here, there, rfl, rfl, benches⟩
  | succ count ih =>
      have below : index < here.doc.tokens.size := by
        have sized : here.doc.tokens.size = size := benches.size
        omega
      have own := Array.getElem?_eq_getElem below
      have token : here.doc.tokens.getD index default = here.doc.tokens[index] :=
        Arrays.getD_of_getElem? own default
      simp only [visitFrom, ← benches.doc, token]
      split
      · exact Or.inl ⟨index, here, there, rfl, rfl, benches⟩
      · rcases visit_matched lockstep weigh legal benches own with
          ⟨_, here', there', done, done', tied'⟩ | ⟨fault, here', there', failed, failed', level⟩
        · simp only [done, done']
          exact ih tied' (by omega)
        · simp only [failed, failed']
          exact Or.inr ⟨fault, here', there', rfl, rfl, level⟩

/-- A sweep over a document gives the same answer on both
models, and leaves the same sampler and document behind. -/
theorem sweep_matched (lockstep : Lockstep numTopics tied)
    (weigh : Priors Float → (Nat → Tally) → Nat → MoveRule) {proposals : AliasSlice}
    (legal : proposals.Legal numTopics) (entry : SliceMeta) {sampler : Sampler}
    (same : sampler.numTopics = numTopics) {doc : Document}
    (topics : ∀ token ∈ doc.tokens, token.topic < numTopics) {first : M} {second : N}
    (models : tied (doc.tokens.toList + others) first second) :
    Update.Matched (Bench.Level numTopics tied others) (Bench.Level numTopics tied others)
      (sweep (weighed weigh) TopicCounts.commit entry proposals ⟨sampler, doc, first⟩)
      (sweep (weighed weigh) TopicCounts.commit entry proposals ⟨sampler, doc, second⟩) := by
  obtain ⟨rng, counter, stats, samplerTopics, mhStep, alphaSum, priors⟩ := sampler
  obtain ⟨opened, rewound, tokens⟩ :
    ∃ opened : Document, (if entry.id = 0 then doc.resetCursor else doc) = opened ∧
      opened.tokens = doc.tokens := by
    refine ⟨_, rfl, ?_⟩
    split <;> rfl
  rw [← tokens] at topics models
  simp only [sweep, rewind, rewound, recount]
  cases rebuilt : TopicCounter.rebuild opened samplerTopics counter with
  | error fault counted =>
      have level : Bench.Level numTopics tied others
          (⟨⟨rng, counted, stats, samplerTopics, mhStep, alphaSum, priors⟩, opened,
            first⟩ : Bench M)
          ⟨⟨rng, counted, stats, samplerTopics, mhStep, alphaSum, priors⟩, opened, second⟩ :=
        ⟨rfl, rfl, ⟨_, models⟩, same⟩
      exact Or.inr ⟨fault, _, _, rfl, rfl, level⟩
  | ok _ counted =>
      have benches : Bench.Tied numTopics tied others opened.size
          (⟨⟨rng, counted, stats, samplerTopics, mhStep, alphaSum, priors⟩, opened,
            first⟩ : Bench M)
          ⟨⟨rng, counted, stats, samplerTopics, mhStep, alphaSum, priors⟩, opened, second⟩ :=
        ⟨rfl, rfl, topics, models, same, rfl⟩
      dsimp only
      rcases visitFrom_matched lockstep weigh legal entry.lastWord (opened.size - opened.cursor)
        benches rfl with
        ⟨next, ⟨sampler, swept, first'⟩, ⟨sampler', swept', second'⟩, done, done', after⟩ |
        ⟨fault, here, there, failed, failed', level⟩
      · obtain ⟨sameSampler, sameDoc, _, modelsAfter, sameAfter, _⟩ := after
        dsimp only at sameSampler sameDoc modelsAfter sameAfter
        subst sameSampler sameDoc
        have level :
            Bench.Level numTopics tied others (finish opened.cursor next ⟨sampler, swept, first'⟩)
            (finish opened.cursor next ⟨sampler, swept, second'⟩) :=
          ⟨rfl, rfl, ⟨_, modelsAfter⟩, sameAfter⟩
        simp only [done, done']
        exact Or.inl ⟨_, _, _, rfl, rfl, level⟩
      · simp only [failed, failed']
        exact Or.inr ⟨fault, here, there, rfl, rfl, level⟩

end Sampler

end LatentTopics
