import Mathlib
import LatentTopics.Engine.Inference
import LatentTopics.Proofs.Engine.Frames
import LatentTopics.Proofs.Engine.Progress
import LatentTopics.Proofs.Engine.Training
import LatentTopics.Proofs.Sampler.Reports

/-! Inference. Of an engine it leaves everything but the samplers as it is, and of the documents
everything but topics. It resamples the tokens of all words up to the last one of the vocabulary,
also of those that lie between two words of the vocabulary and are none themselves; the tokens of
words beyond keep their topics. -/
namespace LatentTopics

/-- Whether there is a word of the vocabulary that is not before this one. -/
def Vocabulary.spans (vocab : Vocabulary) (word : Nat) : Bool :=
  vocab.words.any fun known => word ≤ known.word

namespace Vocabulary.Lawful

variable {vocab : Vocabulary}

theorem spans_iff (lawful : vocab.Lawful) (word : Nat) : vocab.spans word = true ↔
    ∃ id < vocab.slices.size, ∃ entry, vocab.slices[id]? = some entry ∧ word ≤ entry.lastWord := by
  rw [spans, Array.any_eq_true']
  constructor
  · rintro ⟨known, listed, below⟩
    obtain ⟨home, run, index, here, seats⟩ := lawful.sliced.exists_seats listed
    have inside := (Array.getElem?_eq_some_iff.mp here).1
    obtain ⟨id, less, entry, there, last⟩ :=
      (lawful.sliced.exists_earlier_iff lawful.ordered here seats _).mpr inside
    exact ⟨id, less, entry, there, (of_decide_eq_true below).trans last⟩
  · rintro ⟨id, _, entry, there, last⟩
    obtain ⟨nonempty, within⟩ := lawful.sliced.bounds there
    have inside : entry.stop - 1 < vocab.words.size := by omega
    have own : entry.lastWord = vocab.words[entry.stop - 1].word := by
      rw [congrArg SliceMeta.lastWord (lawful.sliced.place id entry there)]
      exact congrArg WordMeta.word
        (Arrays.getD_of_getElem? (Array.getElem?_eq_getElem inside) default)
    exact ⟨_, Array.getElem_mem inside, decide_eq_true (own ▸ last)⟩

theorem spans_of_le (lawful : vocab.Lawful) {id : Nat} {entry : SliceMeta}
    (there : vocab.slices[id]? = some entry) :
    ∀ word ≤ entry.lastWord, vocab.spans word = true := by
  intro word last
  exact (lawful.spans_iff word).mpr ⟨id, (Array.getElem?_eq_some_iff.mp there).1,
    entry, there, last⟩

end Vocabulary.Lawful

theorem countP_of_positions {list : List Nat} {p : Nat → Bool} {count : Nat}
    (within : count ≤ list.length)
    (parts : ∀ position word, list[position]? = some word → (position < count ↔ p word = true)) :
    list.countP p = count := by
  have front : (list.take count).countP p = count := by
    have length : (list.take count).length = count := List.length_take_of_le within
    conv_rhs => rw [← length]
    rw [List.countP_eq_length]
    intro word member
    obtain ⟨position, here⟩ := List.getElem?_of_mem member
    have below := (List.getElem?_eq_some_iff.mp here).1
    rw [List.getElem?_take_of_lt (length ▸ below)] at here
    exact (parts position word here).mp (length ▸ below)
  have back : (list.drop count).countP p = 0 := by
    rw [List.countP_eq_zero]
    intro word member
    obtain ⟨position, here⟩ := List.getElem?_of_mem member
    rw [List.getElem?_drop] at here
    exact fun holds => absurd ((parts _ word here).mpr holds)
      (Nat.not_lt.mpr (Nat.le_add_right _ _))
  have split := List.take_append_drop count list
  rw [← split, List.countP_append, front, back, Nat.add_zero]

theorem Midway.openings_eq_zero {vocab : Vocabulary} {given docs : Array Document}
    (midway : Midway vocab given 0 0 docs) :
    openings 0 0 docs = 0 := by
  rw [midway.openings_eq_sum (fun _ => 0) fun _ _ _ => rfl, List.map_const',
    List.sum_replicate, smul_zero]

theorem Document.midway_of_sorted {docs given : Array Document}
    (words : docs.map Document.words = given.map Document.words) (sorted : ∀ doc ∈ docs, doc.Sorted)
    (vocab : Vocabulary) : Midway vocab given 0 0 docs := by
  refine ⟨words, ?_⟩
  intro number doc here
  rw [if_neg (Nat.not_lt_zero number)]
  exact (sorted doc (Array.mem_of_getElem? here)).stands vocab

/-- Behind the last slice the cursors part the words that the vocabulary spans from the others. -/
theorem Midway.openings_eq_countP {vocab : Vocabulary} {given docs : Array Document}
    (lawful : vocab.Lawful) (midway : Midway vocab given vocab.slices.size 0 docs) :
    openings vocab.slices.size 0 docs = (Block.tokens ⟨given⟩).countP fun token =>
        vocab.spans token.word := by
  have ends : ∀ doc ∈ docs, doc.Stands vocab vocab.slices.size →
      doc.opening vocab.slices.size = doc.words.toList.countP vocab.spans := by
    rintro doc _ ⟨_, within, parts⟩
    symm
    apply countP_of_positions
    · rwa [Array.length_toList, doc.size_words]
    · intro position word there
      rw [Array.getElem?_toList] at there
      rw [parts position word there, lawful.spans_iff]
  rw [midway.openings_eq_sum (fun words => words.toList.countP vocab.spans) ends, Block.tokens,
    List.countP_flatMap]
  simp only [Document.words, Array.toList_map, List.countP_map, Function.comp_def]

namespace Sampler

variable {M : Type} [TopicCounts M] {numTopics : Nat} {entry : SliceMeta} {proposals : AliasSlice}

theorem keeps_inferDoc (legal : proposals.Legal numTopics) {free : Nat → Prop}
    (reach : ∀ word ≤ entry.lastWord, free word) (before : Document) :
    Update.Keeps (Bench.Framed numTopics free before fun _ : M => True)
        (inferDoc entry proposals) :=
  keeps_sweep (fun _ _ _ _ _ => trivial) legal frozenRule reach

theorem inferDoc_ok (legal : proposals.Legal numTopics) {sampler : Sampler}
    (ready : sampler.Ready numTopics) {doc : Document} (small : doc.size < 2147483648)
    (topics : ∀ token ∈ doc.tokens, token.topic < numTopics)
    (within : doc.opening entry.id ≤ doc.size) (model : M) :
    ∃ visited after, inferDoc entry proposals ⟨sampler, doc, model⟩ = .ok visited after ∧
      after.sampler.Ready numTopics ∧ (∀ token ∈ after.doc.tokens, token.topic < numTopics) ∧
      doc.Resumed entry visited after.doc ∧
      after.sampler.stats.sampled = sampler.stats.sampled + visited := by
  have takes : Takes numTopics (fun _ => (pure () : Update M Unit)) fun _ _ => True :=
    ⟨fun _ _ _ _ => trivial, fun _ _ _ _ => trivial⟩
  rcases sweep_reports takes legal frozenRule entry ready small topics within model trivial with
    ⟨visited, after, done, reports, readyAfter, resumed, sampled⟩ | ⟨fault, after, _, _, _, fails⟩
  · exact ⟨visited, after, done, readyAfter, reports.topics, resumed, sampled⟩
  · obtain ⟨change, left, next, refused⟩ := fails.refused
    cases refused

end Sampler

namespace Shift

variable {M : Type} [TopicCounts M] {vocab : Vocabulary} {given : Array Document}
  {id base index : Nat} {entry : SliceMeta}
  {proposals : AliasSlice} {shift : Shift M}

structure Infers (vocab : Vocabulary) (given : Array Document) (id base number : Nat)
    (shift : Shift M) : Prop where
  midway : Midway vocab given id number shift.docs
  ready : shift.sampler.Ready vocab.numTopics
  topics : ∀ doc ∈ shift.docs, ∀ token ∈ doc.tokens, token.topic < vocab.numTopics
  sampled : shift.sampler.stats.sampled = base + openings id number shift.docs

theorem Infers.next (infers : shift.Infers vocab given id base index)
    (small : ∀ doc ∈ given, doc.words.size < 2147483648) (legal : proposals.Legal vocab.numTopics)
    (own : entry.id = id) (there : vocab.slices[id]? = some entry) (inside : index < given.size) :
    ∃ after, visitDoc (Sampler.inferDoc entry proposals) index shift = .ok () after ∧
      after.Infers vocab given id base (index + 1) := by
  obtain ⟨sampler, docs, model⟩ := shift
  obtain ⟨midway, ready, topics, sampled⟩ := infers
  rw [← midway.size] at inside
  have here := Array.getElem?_eq_getElem inside
  have stands := midway.stands index _ here
  rw [if_neg (Nat.lt_irrefl index)] at stands
  have few := Document.forall_words (P := fun words => words.size < 2147483648) midway.words small _
    (Array.getElem_mem inside)
  rw [Document.size_words] at few
  obtain ⟨visited, ⟨next, doc, left⟩, inferred, readyNext, topicsNext, resumed, sampledNext⟩ :=
    Sampler.inferDoc_ok legal ready few (topics _ (Array.getElem_mem inside))
      (own ▸ stands.within) model
  obtain ⟨midwayNext, moved⟩ := midway.next here resumed own there
  refine ⟨⟨next, docs.setIfInBounds index doc, left⟩, ?_, midwayNext, readyNext, ?_, ?_⟩
  · simp only [visitDoc, dif_pos inside, Array.swapAt, inferred, Arrays.setIfInBounds_set]
  · intro other member
    rcases Array.mem_or_eq_of_mem_setIfInBounds member with old | rfl
    · exact topics other old
    · exact topicsNext
  · dsimp only at sampledNext sampled ⊢
    rw [sampledNext, sampled, moved, Nat.add_assoc]

theorem Infers.visitDocs (small : ∀ doc ∈ given, doc.words.size < 2147483648)
    (legal : proposals.Legal vocab.numTopics) (own : entry.id = id)
    (there : vocab.slices[id]? = some entry) (count : Nat)
    (infers : shift.Infers vocab given id base index) (rest : index + count = given.size) :
    ∃ after, Shift.visitDocs (Sampler.inferDoc entry proposals) count index shift = .ok () after ∧
      after.Infers vocab given id base given.size := by
  induction count generalizing index shift with
  | zero => exact ⟨shift, rfl, rest ▸ infers⟩
  | succ count ih =>
      obtain ⟨between, visited, next⟩ := infers.next small legal own there (by omega)
      obtain ⟨after, others, last⟩ := ih next (by omega)
      exact ⟨after, by rw [Shift.visitDocs, visited]; exact others, last⟩

end Shift

namespace Engine

/-- What holds all through an inference: of the engine only the samplers have changed, of the
documents only topics of tokens whose words the vocabulary spans. -/
structure Inferring (origin : Engine) (given : List Document)
    (state : Engine × Array Document) : Prop where
  same : state.1 = { origin with samplers := state.1.samplers }
  workers : state.1.samplers.size = origin.samplers.size
  ready : ∀ sampler ∈ state.1.samplers, sampler.Ready origin.vocab.numTopics
  docs : List.Forall₂ (Document.Framed origin.vocab.numTopics fun word =>
    origin.vocab.spans word = true) given state.2.toList

/-- How far an inference has come without a fault, with the
visits of its first sampler since some moment. -/
structure Inferred (vocab : Vocabulary) (given : Array Document) (id base : Nat)
    (state : Engine × Array Document) : Prop where
  midway : Midway vocab given id 0 state.2
  sampled : ∃ sampler, state.1.samplers[0]? = some sampler ∧
    sampler.stats.sampled = base + openings id 0 state.2

variable {settings : Settings} {vocab : Vocabulary} {docs given : List Document} {origin : Engine}
  {id base : Nat} {entry : SliceMeta} {slice : Slice}

theorem Inferring.set {state : Engine × Array Document} (inferring : Inferring origin given state)
    {sampler : Sampler} (ready : sampler.Ready origin.vocab.numTopics) {after : Array Document}
    (framed : List.Forall₂ (Document.Framed origin.vocab.numTopics fun word =>
      origin.vocab.spans word = true) given after.toList) :
    Inferring origin given ({ state.1 with samplers := state.1.samplers.setIfInBounds 0 sampler },
        after) := by
  refine ⟨?_, Array.size_setIfInBounds.trans inferring.workers, ?_, framed⟩
  · rw [inferring.same]
  · intro other member
    rcases Array.mem_or_eq_of_mem_setIfInBounds member with old | rfl
    · exact inferring.ready other old
    · exact ready

theorem left_inferSlice (engine : Engine) (block : Array Document)
    (there : engine.vocab.slices[id]? = some entry) (here : engine.store.slices[id]? = some slice)
    {sampler : Sampler} (first : engine.samplers[0]? = some sampler) :
    Update.left (inferSlice id) (engine, block) =
      let shift := Update.left
        (Shift.visitDocs (Sampler.inferDoc entry (engine.proposalsOf entry slice)) block.size 0)
        ⟨sampler, block, Overlay.start slice engine.store.summary⟩
      ({ engine with samplers := engine.samplers.setIfInBounds 0 shift.sampler }, shift.docs) := by
  simp only [Update.left, inferSlice, there, here, first]
  cases Shift.visitDocs (Sampler.inferDoc entry (engine.proposalsOf entry slice)) block.size 0
    ⟨sampler, block, Overlay.start slice engine.store.summary⟩ <;> rfl

theorem keeps_inferSlice (lawful : origin.vocab.Lawful)
    (intact : origin.Intact settings origin.vocab docs) (id : Nat) :
    Update.Keeps (Inferring origin given) (inferSlice id) := by
  rintro ⟨engine, block⟩ inferring
  obtain ⟨samplers, rfl⟩ : ∃ samplers, engine = { origin with samplers := samplers } :=
    ⟨_, inferring.same⟩
  cases there : origin.vocab.slices[id]? with
  | none =>
      simp only [Update.left, inferSlice, there]
      exact inferring
  | some entry =>
      cases here : origin.store.slices[id]? with
      | none =>
          simp only [Update.left, inferSlice, there, here]
          exact inferring
      | some slice =>
          cases first : samplers[0]? with
          | none =>
              simp only [Update.left, inferSlice, there, here, first]
              exact inferring
          | some sampler =>
              have legal : (proposalsOf { origin with samplers := samplers } entry slice).Legal
                  origin.vocab.numTopics := intact.legal there here
              have started : (⟨sampler, block, Overlay.start slice origin.store.summary⟩ :
                  Shift Overlay).Framed origin.vocab.numTopics
                    (fun word => origin.vocab.spans word = true) given fun _ => True :=
                ⟨inferring.ready sampler (Array.mem_of_getElem? first), inferring.docs, trivial⟩
              have after := Shift.keeps_visitDocs given
                (Sampler.keeps_inferDoc (M := Overlay) legal (lawful.spans_of_le there))
                  block.size 0 _ started
              rw [left_inferSlice { origin with samplers := samplers } block there here first]
              exact inferring.set after.sampler after.docs

theorem keeps_inferSlices (lawful : origin.vocab.Lawful)
    (intact : origin.Intact settings origin.vocab docs) (count id : Nat) :
    Update.Keeps (Inferring origin given) (inferSlices count id) := by
  induction count generalizing id with
  | zero => exact fun state inferring => inferring
  | succ count ih =>
      exact (keeps_inferSlice lawful intact id).followed (ih (id + 1))
        (fun done => by rw [inferSlices, done])
        fun failed => by rw [inferSlices, failed]

theorem keeps_inferRounds (lawful : origin.vocab.Lawful)
    (intact : origin.Intact settings origin.vocab docs) (slices count : Nat) :
    Update.Keeps (Inferring origin given) (inferRounds slices count) := by
  induction count with
  | zero => exact fun state inferring => inferring
  | succ count ih =>
      exact (keeps_inferSlices lawful intact slices 0).followed ih
        (fun done => by rw [inferRounds, done])
        fun failed => by rw [inferRounds, failed]

theorem Inferring.inferSlice {block : Array Document} {state : Engine × Array Document}
    (lawful : origin.vocab.Lawful) (intact : origin.Intact settings origin.vocab docs)
    (small : ∀ doc ∈ block, doc.words.size < 2147483648) (inferring : Inferring origin given state)
    (inferred : Inferred origin.vocab block id base state)
    (inside : id < origin.vocab.slices.size) :
    ∃ after, Engine.inferSlice id state = .ok () after ∧ Inferring origin given after ∧
      Inferred origin.vocab block (id + 1) base after := by
  have keeps : Update.Keeps (Inferring origin given) (Engine.inferSlice id) :=
    keeps_inferSlice lawful intact id
  obtain ⟨engine, current⟩ := state
  obtain ⟨samplers, rfl⟩ : ∃ samplers, engine = { origin with samplers := samplers } :=
    ⟨_, inferring.same⟩
  obtain ⟨midway, sampler, first, sampled⟩ := inferred
  have there := Array.getElem?_eq_getElem inside
  obtain ⟨slice, here, _⟩ := intact.store.fits.slice there
  have own : origin.vocab.slices[id].id = id :=
    congrArg SliceMeta.id (lawful.sliced.place id _ there)
  have legal : (proposalsOf { origin with samplers := samplers } origin.vocab.slices[id]
      slice).Legal origin.vocab.numTopics := intact.legal there here
  have started : (⟨sampler, current, Overlay.start slice origin.store.summary⟩ :
      Shift Overlay).Infers origin.vocab block id base 0 := by
    refine ⟨midway, inferring.ready sampler (Array.mem_of_getElem? first), ?_, sampled⟩
    intro doc member
    obtain ⟨_, _, framed⟩ := exists_related inferring.docs (Array.mem_toList_iff.mpr member)
    exact framed.topics
  obtain ⟨shift, visited, midwayEnd, _, _, sampledEnd⟩ :=
    started.visitDocs small legal own there block.size (Nat.zero_add _)
  obtain ⟨midwayNext, same⟩ := midwayEnd.congr 0 (id + 1) (by
    intro number below
    rw [midwayEnd.size] at below
    rw [if_pos below, if_neg (Nat.not_lt_zero number)])
  rw [← midway.size] at visited
  have done : Engine.inferSlice id ({ origin with samplers := samplers }, current) =
      .ok () ({ origin with samplers := samplers.setIfInBounds 0 shift.sampler }, shift.docs) := by
    simp only [Engine.inferSlice, there, here, first, visited]
  have zero : 0 < samplers.size := (Array.getElem?_eq_some_iff.mp first).1
  refine ⟨_, done, keeps.of_ok inferring done, midwayNext, shift.sampler, ?_, ?_⟩
  · exact Array.getElem?_setIfInBounds_self_of_lt zero
  · rw [sampledEnd, same]

theorem Inferring.inferSlices {block : Array Document} {state : Engine × Array Document}
    (lawful : origin.vocab.Lawful) (intact : origin.Intact settings origin.vocab docs)
    (small : ∀ doc ∈ block, doc.words.size < 2147483648) (count : Nat)
    (inferring : Inferring origin given state)
    (inferred : Inferred origin.vocab block id base state)
    (rest : id + count = origin.vocab.slices.size) :
    ∃ after, Engine.inferSlices count id state = .ok () after ∧ Inferring origin given after ∧
      Inferred origin.vocab block origin.vocab.slices.size base after := by
  induction count generalizing id state with
  | zero => exact ⟨state, rfl, inferring, rest ▸ inferred⟩
  | succ count ih =>
      obtain ⟨between, first, next, inferredNext⟩ :=
        inferring.inferSlice lawful intact small inferred (by omega)
      obtain ⟨after, others, last⟩ := ih next inferredNext (by omega)
      exact ⟨after, by rw [Engine.inferSlices, first]; exact others, last⟩

theorem Inferring.inferRounds {block : Array Document} {state : Engine × Array Document}
    (lawful : origin.vocab.Lawful) (intact : origin.Intact settings origin.vocab docs)
    (small : ∀ doc ∈ block, doc.words.size < 2147483648) (count : Nat)
    (inferring : Inferring origin given state)
    (inferred : Inferred origin.vocab block 0 base state) :
    ∃ after, Engine.inferRounds origin.vocab.slices.size count state = .ok () after ∧
      Inferring origin given after ∧
      Inferred origin.vocab block 0
        (base + count * (Block.tokens ⟨block⟩).countP fun token =>
          origin.vocab.spans token.word) after := by
  induction count generalizing base state with
  | zero => exact ⟨state, rfl, inferring, by rwa [Nat.zero_mul, Nat.add_zero]⟩
  | succ count ih =>
      obtain ⟨between, first, next, midway, sampler, there, sampled⟩ :=
        inferring.inferSlices lawful intact small origin.vocab.slices.size inferred (Nat.zero_add _)
      have back : Midway origin.vocab block 0 0 between.2 := by
        apply Document.midway_of_sorted midway.words
        intro doc member
        obtain ⟨number, here⟩ := Array.getElem?_of_mem member
        exact (midway.stands number doc here).sorted
      rw [midway.openings_eq_countP lawful, ← Nat.add_zero (_ + _),
        ← back.openings_eq_zero] at sampled
      obtain ⟨after, others, last, inferredLast⟩ := ih next ⟨back, sampler, there, sampled⟩
      refine ⟨after, by rw [Engine.inferRounds, first]; exact others, last, ?_⟩
      rwa [Nat.succ_mul, Nat.add_comm (_ * _), ← Nat.add_assoc]

theorem Inferring.intact {state : Engine × Array Document}
    (inferring : Inferring origin given state) (intact : origin.Intact settings origin.vocab docs) :
    state.1.Intact settings origin.vocab docs := by
  have workers : 0 < state.1.samplers.size := inferring.workers.symm ▸ intact.workers
  rw [inferring.same]
  exact ⟨workers, inferring.ready, intact.store, intact.docs, intact.settings, intact.vocab⟩

theorem inferring_start (intact : origin.Intact settings origin.vocab docs)
    (numTopics : origin.vocab.numTopics = origin.settings.numTopics) {other : Block}
    (legal : other.validate origin.settings.numVocabs origin.settings.numTopics = .ok ()) :
    Inferring origin other.docs.toList (origin, other.docs) := by
  refine ⟨rfl, rfl, intact.ready, List.forall₂_same.mpr ?_⟩
  intro doc member
  apply Document.framed_refl
  intro token inside
  exact numTopics ▸ Block.topics_of_validate legal token
    (Tokens.mem_ofDocs.mpr ⟨doc, member, inside⟩)

theorem left_infer (numTopics : origin.vocab.numTopics = origin.settings.numTopics)
    (lawful : origin.vocab.Lawful) (intact : origin.Intact settings origin.vocab docs)
    {other : Block}
    (legal : other.validate origin.settings.numVocabs origin.settings.numTopics = .ok ())
    (iterations : Nat) :
    ∃ state, Inferring origin other.docs.toList state ∧
      Update.left (infer iterations) (origin, other) = (state.1, ⟨state.2⟩) := by
  have begins := inferring_start intact numTopics legal
  have keeps : Update.Keeps (Inferring origin other.docs.toList)
      (inferRounds origin.vocab.slices.size iterations) :=
    keeps_inferRounds lawful intact _ iterations
  cases inferred : inferRounds origin.vocab.slices.size iterations (origin, other.docs) with
  | ok _ state =>
      exact ⟨state, keeps.of_ok begins inferred, by simp only [Update.left, infer, legal, inferred]⟩
  | error fault state =>
      exact ⟨state,
        keeps.of_error begins inferred, by simp only [Update.left, infer, legal, inferred]⟩

/-- The engines that come from a start by iterations and inferences, whether these fail or not.
Draws may be replaced between any two of them. -/
inductive Reached (settings : Settings) (seed : Nat) (block : Block) : Engine → Prop where
  | start {engine : Engine} (started : Engine.start settings seed block = .ok engine) :
      Reached settings seed block engine
  | draw {engine : Engine} (reached : Reached settings seed block engine) {samplers : Array Sampler}
      (alike : List.Forall₂ Sampler.Alike engine.samplers.toList samplers.toList) :
      Reached settings seed block { engine with samplers := samplers }
  | iterate {engine : Engine} (reached : Reached settings seed block engine) :
      Reached settings seed block (Update.left runIteration engine)
  | infer {engine : Engine} (reached : Reached settings seed block engine) (iterations : Nat)
      (other : Block) :
      Reached settings seed block (Update.left (infer iterations) (engine, other)).1

variable {seed : Nat} {block : Block} {engine : Engine}

theorem intact_of_start (started : Engine.start settings seed block = .ok engine) :
    engine.vocab.Lawful ∧ engine.vocab.numTopics = engine.settings.numTopics ∧
      engine.Intact engine.settings engine.vocab block.docs.toList := by
  have begun := start_eq_ok.mp started
  have topics : ∀ doc ∈ block.docs.toList, ∀ token ∈ doc.tokens, token.topic <
      engine.vocab.numTopics := by
    intro doc listed token inside
    exact begun.topics token (Tokens.mem_ofDocs.mpr ⟨doc, listed, inside⟩)
  have ready := begun.samplers_every (ofSettings_ready engine.settings)
  refine ⟨begun.lawful, begun.numTopics, begun.workers, begun.numTopics.symm ▸ ready,
    Store.ofDocuments_confined begun.lawful topics begun.counted, ?_, rfl, rfl⟩
  rw [begun.whole, List.forall₂_same]
  exact fun doc listed => Document.framed_refl (topics doc listed)

theorem Intact.redraw (intact : engine.Intact settings vocab docs) {samplers : Array Sampler}
    (alike : List.Forall₂ Sampler.Alike engine.samplers.toList samplers.toList) :
    Intact settings vocab docs { engine with samplers := samplers } := by
  refine ⟨?_, ?_, intact.store, intact.docs, intact.settings, intact.vocab⟩
  · have size := alike.length_eq
    rw [Array.length_toList, Array.length_toList] at size
    exact size ▸ intact.workers
  · intro sampler member
    obtain ⟨old, inside, alikeOld⟩ := exists_related alike (Array.mem_toList_iff.mpr member)
    have ready := intact.ready old (Array.mem_toList_iff.mp inside)
    exact ⟨alikeOld.numTopics.trans ready.numTopics, alikeOld.counter.symm ▸ ready.power⟩

theorem Reached.intact (reached : Reached settings seed block engine) :
    engine.vocab.Lawful ∧ engine.vocab.numTopics = engine.settings.numTopics ∧
      engine.Intact engine.settings engine.vocab block.docs.toList := by
  -- No step changes settings or vocabulary.
  have same : ∀ {before after : Engine}, before.vocab.Lawful ∧
      before.vocab.numTopics = before.settings.numTopics ∧
      before.Intact before.settings before.vocab block.docs.toList →
      after.Intact before.settings before.vocab block.docs.toList →
      after.vocab.Lawful ∧ after.vocab.numTopics = after.settings.numTopics ∧
        after.Intact after.settings after.vocab block.docs.toList := by
    rintro before after ⟨lawful, numTopics, _⟩ intact
    obtain ⟨settings', vocab'⟩ := And.intro intact.settings intact.vocab
    rw [settings', vocab']
    exact ⟨lawful, numTopics, intact⟩
  induction reached with
  | start started => exact intact_of_start started
  | draw reached alike ih => exact same ih (ih.2.2.redraw alike)
  | iterate reached ih => exact same ih (keeps_runIteration _ ih.2.2)
  | @infer engine reached iterations other ih =>
      obtain ⟨lawful, numTopics, intact⟩ := ih
      refine same ⟨lawful, numTopics, intact⟩ ?_
      cases legal : other.validate engine.settings.numVocabs engine.settings.numTopics with
      | error fault =>
          simp only [Update.left, Engine.infer, legal]
          exact intact
      | ok _ =>
          obtain ⟨state, inferring, left⟩ := left_infer numTopics lawful intact legal iterations
          rw [left]
          exact inferring.intact intact

/-- Whatever an engine went through, an inference changes nothing of it but its samplers, and of the
documents nothing but topics of tokens up to the last word of the vocabulary. No inference fails on
documents that a counter can count, and every iteration resamples all tokens up to that word,
whether or not their words are known. -/
theorem inference_frames (reached : Reached settings seed block engine) {other : Block}
    (legal : other.validate engine.settings.numVocabs engine.settings.numTopics = .ok ())
    (iterations : Nat) :
    let after := Update.left (infer iterations) (engine, other)
    after.1 = { engine with samplers := after.1.samplers } ∧
      List.Forall₂ (Document.Framed engine.settings.numTopics fun word =>
        engine.vocab.spans word = true)
        other.docs.toList after.2.docs.toList ∧
      ((∀ doc ∈ other.docs, doc.Sorted ∧ doc.size < 2147483648) →
        infer iterations (engine, other) = .ok () after ∧
        ∃ sampler last, engine.samplers[0]? = some sampler ∧ after.1.samplers[0]? = some last ∧
          last.stats.sampled = sampler.stats.sampled +
            iterations * other.tokens.countP fun token => engine.vocab.spans token.word) := by
  intro after
  obtain ⟨lawful, numTopics, intact⟩ := reached.intact
  rw [← numTopics]
  obtain ⟨state, inferring, left⟩ := left_infer numTopics lawful intact legal iterations
  have same : after = (state.1, ⟨state.2⟩) := left
  refine ⟨same ▸ inferring.same, same ▸ inferring.docs, ?_⟩
  intro fine
  have workers := intact.workers
  have stands := Document.midway_of_sorted rfl (fun doc member => (fine doc member).1) engine.vocab
  have small : ∀ doc ∈ other.docs, doc.words.size < 2147483648 :=
    fun doc member => doc.size_words.symm ▸ (fine doc member).2
  have begins : Inferred engine.vocab other.docs 0 engine.samplers[0].stats.sampled (engine,
      other.docs) :=
    ⟨stands, _, Array.getElem?_eq_getElem workers, by rw [stands.openings_eq_zero, Nat.add_zero]⟩
  obtain ⟨last, rounds, _, midway, sampler, there, sampled⟩ :=
    (inferring_start intact numTopics legal).inferRounds lawful intact small iterations begins
  have done : infer iterations (engine, other) = .ok () (last.1, ⟨last.2⟩) := by
    simp only [infer, legal, rounds]
  rw [show after = (last.1, ⟨last.2⟩) from Update.left_of_ok done]
  refine ⟨done, _, sampler, Array.getElem?_eq_getElem workers, there, ?_⟩
  rw [sampled, midway.openings_eq_zero, Nat.add_zero]

/-- A document with a word between the two of the vocabulary,
which is resampled, and one beyond, which keeps its topic. -/
theorem inference_frames_gap :
    let settings : Settings := { numTopics := 2, numVocabs := 4, counterCapacity := 1 }
    let block : Block := ⟨#[⟨#[⟨0, 0⟩, ⟨2, 1⟩], 0⟩]⟩
    let other : Block := ⟨#[⟨#[⟨1, 0⟩, ⟨3, 1⟩], 0⟩]⟩
    ∃ engine, Reached settings 6 block engine ∧
      other.validate engine.settings.numVocabs engine.settings.numTopics = .ok () ∧
      ∃ after doc sampler last, infer 1 (engine, other) = .ok () after ∧
        after.2.docs.toList = [doc] ∧
        doc.words = #[1, 3] ∧ doc.tokens[1]? = some ⟨3, 1⟩ ∧ engine.samplers[0]? = some sampler ∧
        after.1.samplers[0]? = some last ∧ last.stats.sampled = sampler.stats.sampled + 1 := by
  intro settings block other
  obtain ⟨engine, started⟩ := (exists_start_iff (by decide) 6).mpr
    (by decide +kernel : Accepts (withVocabSize settings block) block)
  have same := (start_eq_ok.mp started).sized
  obtain ⟨vocab, made, cut⟩ := (start_eq_ok.mp started).laidOut
  -- The vocabulary knows the words 0 and 2 only.
  have words : vocab.words.map WordMeta.word = #[0, 2] := by
    rw [same] at made
    have known : Vocabulary.ofDocuments block.docs.toList (withVocabSize settings block).numTopics
        (withVocabSize settings block).loadFactor =
          .ok ⟨2, #[⟨0, 1, .dense, true⟩, ⟨2, 1, .dense, true⟩], #[⟨0, 0, 2, 0, 2⟩]⟩ := by
      cbv
    rw [known] at made
    obtain rfl := Except.ok.inj made
    decide +kernel
  have spans : ∀ word, engine.vocab.spans word = decide (word ≤ 2) := by
    intro word
    have listed : engine.vocab.spans word = (vocab.words.map WordMeta.word).any (word ≤ ·) := by
      rw [cut, Vocabulary.spans, Array.any_map]
      rfl
    rw [listed, words]
    simp
    omega
  have reached : Reached settings 6 block engine := .start started
  have accepted : other.validate engine.settings.numVocabs engine.settings.numTopics = .ok () := by
    rw [same]
    decide
  obtain ⟨_, framed, succeeds⟩ := inference_frames reached accepted 1
  obtain ⟨done, sampler, last, first, there, sampled⟩ :=
    succeeds (by simp [other, Document.Sorted, Document.size])
  obtain ⟨doc, rest, own, none, docs⟩ := List.forall₂_cons_left_iff.mp framed
  rw [List.forall₂_nil_left_iff] at none
  have count : (other.tokens.countP fun token => engine.vocab.spans token.word) = 1 := by
    simp only [spans]
    decide
  refine ⟨engine, reached, accepted, _, doc, sampler, last, done, none ▸ docs,
    own.words.trans (by decide +kernel), ?_, first, there, ?_⟩
  · exact own.fixed 1 ⟨3, 1⟩ rfl (by rw [spans]; decide)
  · rw [sampled, count]

end Engine

end LatentTopics
