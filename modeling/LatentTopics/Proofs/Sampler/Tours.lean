import Mathlib
import LatentTopics.Proofs.Counts.Agreement
import LatentTopics.Proofs.Sampler.Lockstep
import LatentTopics.Proofs.Sampler.Serving

/-! Documents of a consistent store, one after another over the counts in place, and again over an
overlay. The sampler cannot tell which of the two it works on, and merging the overlay's log leaves
the counts that the other has left. -/
namespace LatentTopics

namespace Sampler

structure Tour (M : Type) where
  answers : List (Except Fault Nat)
  docs : List Document
  sampler : Sampler
  model : M

/-- Takes documents through a step one after another; one
that fails does not stop those behind it. -/
def tour {M : Type} (step : Update (Bench M) Nat) : List Document → Sampler → M → Tour M
  | [], sampler, model => ⟨[], [], sampler, model⟩
  | doc :: docs, sampler, model =>
      match step ⟨sampler, doc, model⟩ with
      | .ok visited ⟨sampler, doc, model⟩ =>
          let rest := tour step docs sampler model
          ⟨.ok visited :: rest.answers, doc :: rest.docs, rest.sampler, rest.model⟩
      | .error fault ⟨sampler, doc, model⟩ =>
          let rest := tour step docs sampler model
          ⟨.error fault :: rest.answers, doc :: rest.docs, rest.sampler, rest.model⟩

structure Tour.Level {M N : Type} (tied : Multiset Token → M → N → Prop) (here : Tour M)
    (there : Tour N) : Prop where
  answers : here.answers = there.answers
  docs : here.docs = there.docs
  sampler : here.sampler = there.sampler
  models : ∃ tokens, tied tokens here.model there.model

section Tours

variable {M N : Type} [TopicCounts M] [TopicCounts N] {numTopics : Nat} {tied : Multiset Token →
  M → N → Prop}
  {others : Multiset Token} {proposals : AliasSlice}

theorem tour_level (lockstep : Lockstep numTopics tied)
    (weigh : Priors Float → (Nat → Tally) → Nat → MoveRule) (legal : proposals.Legal numTopics)
    (entry : SliceMeta) (docs : List Document) {sampler : Sampler}
    (same : sampler.numTopics = numTopics)
    (topics : ∀ doc ∈ docs, ∀ token ∈ doc.tokens, token.topic < numTopics) {first : M} {second : N}
    (models : tied (Tokens.ofDocs docs + others) first second) :
    Tour.Level tied (tour (sweep (weighed weigh) TopicCounts.commit entry proposals)
        docs sampler first)
      (tour (sweep (weighed weigh) TopicCounts.commit entry proposals) docs sampler second) := by
  induction docs generalizing sampler first second others with
  | nil => exact ⟨rfl, rfl, rfl, _, models⟩
  | cons doc docs ih =>
      rw [Tokens.ofDocs_cons, add_assoc] at models
      have rest := fun later member => topics later (List.mem_cons_of_mem doc member)
      rcases sweep_matched lockstep weigh legal entry same
        (topics doc List.mem_cons_self) models with
        ⟨visited, ⟨sampler, swept, first'⟩, ⟨sampler', swept', second'⟩, done, done', sameSampler,
          sameDoc, ⟨mine, after⟩, size⟩ |
        ⟨fault, ⟨sampler, swept, first'⟩, ⟨sampler', swept', second'⟩, failed, failed', sameSampler,
          sameDoc, ⟨mine, after⟩, size⟩
      -- Whatever has become of this document, the tokens of those behind it are in the models.
      · rw [add_left_comm] at after
        obtain ⟨answers, docsAfter, samplers, last⟩ := ih size rest after
        dsimp only at sameSampler sameDoc answers docsAfter samplers last
        subst sameSampler sameDoc
        simp only [tour, done, done']
        exact ⟨congrArg _ answers, congrArg _ docsAfter, samplers, last⟩
      · rw [add_left_comm] at after
        obtain ⟨answers, docsAfter, samplers, last⟩ := ih size rest after
        dsimp only at sameSampler sameDoc answers docsAfter samplers last
        subst sameSampler sameDoc
        simp only [tour, failed, failed']
        exact ⟨congrArg _ answers, congrArg _ docsAfter, samplers, last⟩

theorem tour_ok {words : Array Nat} {holds : Multiset Token → M → Prop}
    (serves : Serves words numTopics holds) (legal : proposals.Legal numTopics)
    (rule : Priors Float → TopicCounter → M → Nat → Nat → MoveRule) (entry : SliceMeta)
    (docs : List Document) (waits : ∀ doc ∈ docs, doc.Waits words numTopics entry)
    {sampler : Sampler} (ready : sampler.Ready numTopics) {model : M}
    (held : holds (Tokens.ofDocs docs + others) model) :
    ∀ answer ∈ (tour (sweep rule TopicCounts.commit entry proposals) docs sampler model).answers,
      ∃ visited, answer = .ok visited := by
  induction docs generalizing sampler model others with
  | nil => exact fun answer member => absurd member List.not_mem_nil
  | cons doc docs ih =>
      rw [Tokens.ofDocs_cons, add_assoc] at held
      obtain ⟨visited, ⟨next, swept, between⟩, done, readyNext, _, heldNext⟩ :=
        sweep_ok serves legal rule entry ready (waits doc List.mem_cons_self) held
      rw [add_left_comm] at heldNext
      intro answer member
      simp only [tour, done] at member
      rcases List.mem_cons.mp member with rfl | later
      · exact ⟨visited, rfl⟩
      · exact ih (fun later member => waits later (List.mem_cons_of_mem doc member))
          readyNext heldNext answer later

end Tours

end Sampler

theorem Twins.lockstep {slice : Slice} {summary : Summary} {limit : Nat → Nat}
    {before : Multiset Token} (base : Counted slice summary limit before) (recording : Bool) :
    Lockstep summary.numTopics (Twins slice summary limit recording before) := by
  constructor
  · intro tokens inPlace overlay twins
    exact (twins.agree base).wordCounts
  · intro tokens inPlace overlay twins
    exact (twins.agree base).totals
  · intro tokens inPlace overlay change twins source new
    by_cases member : change.word ∈ slice.words
    · obtain ⟨inPlace', overlay', done, logged, twins'⟩ := twins.move base member source new
      exact Or.inl ⟨(), inPlace', overlay', done, logged, twins'⟩
    · obtain ⟨refused, denied⟩ := twins.commit_unknown base member
      exact Or.inr ⟨_, inPlace, overlay, refused, denied, twins⟩

/-- Nothing tells a tour over the counts in place from one over an overlay: the answers, the
documents, the sampler with its generator and its statistics, and the changes are the same, and so
are the counts once the overlay's log is merged. -/
structure Indistinguishable (recording : Bool) (slice : Slice) (summary : Summary)
    (here : Sampler.Tour InPlace) (there : Sampler.Tour Overlay) : Prop where
  answers : here.answers = there.answers
  docs : here.docs = there.docs
  sampler : here.sampler = there.sampler
  agree : Agree recording here.model there.model
  merges : Merges slice summary here.model there.model

theorem Sampler.Tour.Level.indistinguishable {slice : Slice} {summary : Summary} {limit : Nat → Nat}
    {recording : Bool} {before : Multiset Token} (base : Counted slice summary limit before)
    {here : Sampler.Tour InPlace} {there : Sampler.Tour Overlay}
    (level : Tour.Level (Twins slice summary limit recording before) here there) :
    Indistinguishable recording slice summary here there := by
  obtain ⟨answers, docs, sampler, tokens, twins⟩ := level
  exact ⟨answers, docs, sampler, twins.agree base, twins.merges base⟩

/-- The sampler cannot tell the view in place from an overlay, whatever it makes of equal counts.
Documents that wait for the slice are sampled without a fault. -/
theorem views_indistinguishable {terms : List (Nat × Nat)} {numTopics loadFactor : Nat}
    {vocab : Vocabulary} (limits : Cells)
    (made : Vocabulary.ofFrequencies terms numTopics loadFactor = .ok vocab)
    (small : ∀ entry ∈ vocab.words, entry.frequency ≤ 2147483647) {store : Store}
    (reached : Store.Reachable (vocab.slice limits) store)
    (consistent : store.check (vocab.slice limits) = .ok ()) {id : Nat} {run : SliceMeta}
    {slice : Slice} (there : (vocab.slice limits).slices[id]? = some run)
    (here : store.slices[id]? = some slice) (beta betaSum : Float) (recording : Bool)
    (docs : List Document) (counted : ∀ token, ((Tokens.ofDocs docs).count token : Int) ≤
      store.count token.word token.topic)
    (sampler : Sampler) (size : sampler.numTopics = numTopics) :
    let proposals := AliasSlice.build (vocab.slice limits) run slice store.summary beta betaSum
    let inPlace := InPlace.start slice store.summary recording
    let overlay := Overlay.start slice store.summary
    Indistinguishable recording slice store.summary
      (Sampler.tour (Sampler.sampleDoc run proposals) docs sampler inPlace)
      (Sampler.tour (Sampler.sampleDoc run proposals) docs sampler overlay) ∧
    (∀ weigh, Indistinguishable recording slice store.summary
      (Sampler.tour (Sampler.sweep (Sampler.weighed weigh) TopicCounts.commit run proposals)
      docs sampler inPlace)
      (Sampler.tour (Sampler.sweep (Sampler.weighed weigh) TopicCounts.commit run proposals)
      docs sampler overlay)) ∧
    (sampler.counter.capacity.isPowerOfTwo → (∀ doc ∈ docs, doc.Waits slice.words numTopics run) →
      ∀ answer ∈ (Sampler.tour (Sampler.sampleDoc run proposals) docs sampler inPlace).answers,
        ∃ visited, answer = .ok visited) := by
  intro proposals inPlace overlay
  have lawful := Vocabulary.lawful_of_frequencies made limits
  have spacious := Vocabulary.spacious_of_small made limits small
  have fits := reached.fits lawful
  obtain ⟨tallies, _⟩ := fits.tallies_of_check lawful spacious consistent
  have base := tallies.counted id slice here
  have same : store.summary.numTopics = numTopics := by
    rw [← Vocabulary.numTopics_of_frequencies made]
    exact fits.numTopics
  have legal : proposals.Legal store.summary.numTopics :=
    base.build_legal (fits.shapes id slice run here there).2 beta betaSum
  -- The documents' tokens are some of those that the store counts.
  obtain ⟨others, split⟩ :
    ∃ others, (store.tokens : Multiset Token) = Tokens.ofDocs docs + others := by
    rw [← Multiset.le_iff_exists_add, Multiset.le_iff_count]
    intro token
    have present := counted token
    rw [Multiset.coe_count, fits.count_tokens lawful token.word token.topic]
    omega
  have topics : ∀ doc ∈ docs, ∀ token ∈ doc.tokens, token.topic < store.summary.numTopics := by
    intro doc listed token member
    apply base.topics
    rw [split]
    exact Multiset.mem_add.mpr (Or.inl (Tokens.mem_ofDocs.mpr ⟨doc, listed, member⟩))
  have lockstep := Twins.lockstep base recording
  have started : Twins slice store.summary (vocab.slice limits).frequency recording store.tokens
      (Tokens.ofDocs docs + others) inPlace overlay := split ▸ twins_start base recording
  have every := fun weigh =>
    (Sampler.tour_level lockstep weigh legal run docs (size.trans same.symm)
      topics started).indistinguishable base
  refine ⟨every Sampler.trainingWeights, every, ?_⟩
  intro power waits
  rw [← same] at waits size
  have held : InPlace.Holds slice store.summary (vocab.slice limits).frequency store.tokens
      (Tokens.ofDocs docs + others)
      inPlace := split ▸ InPlace.start_holds base recording
  exact Sampler.tour_ok (InPlace.serves slice store.summary _ store.tokens)
    legal Sampler.trainingRule run docs waits
    ⟨size, power⟩ held

/-- One document with all tokens of a store, and a sampler of a single round. -/
theorem views_indistinguishable_lone :
    let vocab : Vocabulary :=
      Vocabulary.slice ⟨0, 0⟩ ⟨2, #[⟨7, 2, .dense, true⟩], #[⟨0, 7, 7, 0, 1⟩]⟩
    let run : SliceMeta := ⟨0, 7, 7, 0, 1⟩
    let slice : Slice := ⟨0, #[7], ⟨2, #[1, 1], #[], #[.dense 0]⟩⟩
    let summary : Summary := ⟨#[1, 1]⟩
    let docs : List Document := [⟨#[⟨7, 0⟩, ⟨7, 1⟩], 1⟩]
    let sampler := Sampler.ofSettings { numTopics := 2 } (Xorshift.ofSeed 1)
    let proposals := AliasSlice.build vocab run slice summary 0.01 0.01
    let inPlace := Sampler.tour (Sampler.sampleDoc run proposals) docs sampler
      (InPlace.start slice summary true)
    let overlay := Sampler.tour (Sampler.sampleDoc run proposals) docs sampler
      (Overlay.start slice summary)
    (∀ token, ((Tokens.ofDocs docs).count token : Int) ≤
      (⟨#[slice], summary⟩ : Store).count token.word token.topic) ∧
      Indistinguishable true slice summary inPlace overlay ∧ ∀ answer ∈ inPlace.answers, ∃ visited,
        answer = .ok visited := by
  intro vocab run slice summary docs sampler proposals inPlace overlay
  have lawful := Vocabulary.lawful_of_frequencies Vocabulary.ofFrequencies_lone ⟨0, 0⟩
  have spacious := Vocabulary.spacious_of_small Vocabulary.ofFrequencies_lone ⟨0, 0⟩ (by simp)
  obtain ⟨tallies, described⟩ :=
    (Store.reachable_lone.fits lawful).tallies_of_check lawful spacious (by decide +kernel)
  have tokens : ((⟨#[slice], summary⟩ : Store).tokens : Multiset Token) = Tokens.ofDocs docs := by
    decide +kernel
  have counted : ∀ token, ((Tokens.ofDocs docs).count token : Int) ≤
      (⟨#[slice], summary⟩ : Store).count token.word token.topic := by
    intro token
    rw [tallies.count_eq lawful described.known token.word token.topic, tokens]
  have power : sampler.counter.capacity.isPowerOfTwo := by
    have capacity : sampler.counter.capacity = (1024 : Nat).nextPowerOfTwo := Array.size_replicate
    exact capacity ▸ Nat.isPowerOfTwo_nextPowerOfTwo _
  have waits : ∀ doc ∈ docs, doc.Waits slice.words 2 run := by
    intro doc member
    obtain rfl : doc = ⟨#[⟨7, 0⟩, ⟨7, 1⟩], 1⟩ := List.mem_singleton.mp member
    refine ⟨by simp [Document.Sorted], by decide, by simp, ?_⟩
    intro position word _ read _
    obtain ⟨token, inside, rfl⟩ := Document.mem_words read
    have own : token.word = 7 := by
      rcases List.mem_pair.mp (Array.mem_toList_iff.mpr inside) with rfl | rfl <;> rfl
    simp [own, slice]
  obtain ⟨same, _, answers⟩ :=
    views_indistinguishable ⟨0, 0⟩ Vocabulary.ofFrequencies_lone (by simp) Store.reachable_lone
    (by decide +kernel) (show vocab.slices[0]? = some run by decide +kernel)
      (Array.getElem?_eq_getElem Nat.zero_lt_one)
    0.01 0.01 true docs counted sampler rfl
  exact ⟨counted, same, answers power waits⟩

end LatentTopics
