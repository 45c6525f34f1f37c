import Mathlib
import LatentTopics.Proofs.Counts.Checked

/-! The two views agree. Started on one slice of a consistent store they
answer every sequence of changes alike, whether they accept or refuse, and
the log of the one, merged into the slice, leaves what the other has left. -/
namespace LatentTopics

/-- A view after some changes were tried, with what was refused. -/
structure Tried (M : Type) where
  refusals : List (Option Fault)
  view : M

/-- Tries changes one after another; a refused change does not stop those after it. -/
def tryAll {M : Type} [TopicCounts M] : List Change → M → Tried M
  | [], view => ⟨[], view⟩
  | change :: changes, view =>
      match TopicCounts.commit change view with
      | .ok _ view =>
          let rest := tryAll changes view
          ⟨none :: rest.refusals, rest.view⟩
      | .error fault view =>
          let rest := tryAll changes view
          ⟨some fault :: rest.refusals, rest.view⟩

/-- How a view answers a change: refused, it leaves the view
as it is; accepted, it shows at once. -/
structure Answers {M : Type} [TopicCounts M] (view : M) (change : Change) : Prop where
  refused : ∀ fault after, TopicCounts.commit change view = .error fault after → after = view
  wordCounts : ∀ after, TopicCounts.commit change view = .ok () after → ∀ word topic,
    TopicCounts.wordCount after word topic = TopicCounts.wordCount view word topic +
      (if (⟨word, topic⟩ : Token) = change.target then 1 else 0) -
      if (⟨word, topic⟩ : Token) = change.source then 1 else 0
  totals : ∀ after, TopicCounts.commit change view = .ok () after → ∀ topic,
    TopicCounts.total after topic =
      TopicCounts.total view topic + (if change.new = topic then 1 else 0) -
        if change.old = topic then 1 else 0

theorem answers_of_refused {M : Type} [TopicCounts M] {view : M} {change : Change} {fault : Fault}
    (refused : TopicCounts.commit change view = .error fault view) : Answers view change := by
  constructor
  · intro other after failed
    cases refused.symm.trans failed
    rfl
  · intro after accepted
    cases refused.symm.trans accepted
  · intro after accepted
    cases refused.symm.trans accepted

theorem answers_of_accepted {M : Type} [TopicCounts M] {view next : M} {change : Change}
    (accepted : TopicCounts.commit change view = .ok () next)
    (wordCounts : ∀ word topic, TopicCounts.wordCount next word topic =
      TopicCounts.wordCount view word topic +
        (if (⟨word, topic⟩ : Token) = change.target then 1 else 0) -
      if (⟨word, topic⟩ : Token) = change.source then 1 else 0)
    (totals : ∀ topic, TopicCounts.total next topic =
      TopicCounts.total view topic + (if change.new = topic then 1 else 0) -
        if change.old = topic then 1 else 0) : Answers view change := by
  constructor
  · intro fault after failed
    cases accepted.symm.trans failed
  · intro after again
    cases accepted.symm.trans again
    exact wordCounts
  · intro after again
    cases accepted.symm.trans again
    exact totals

/-- A view that counts tokens in the words of a slice, and in no other word. -/
structure Shows {M : Type} [TopicCounts M] (slice : Slice) (tokens : Multiset Token)
    (view : M) : Prop where
  wordCounts : ∀ word topic, TopicCounts.wordCount view word topic =
    if word ∈ slice.words then (tokens.count ⟨word, topic⟩ : Int) else 0
  totals : ∀ topic, TopicCounts.total view topic = Tokens.ofTopic tokens topic

theorem Shows.answers {M : Type} [TopicCounts M] {slice : Slice} {tokens : Multiset Token}
    {view next : M} {change : Change} (shows : Shows slice tokens view)
    (shows' : Shows slice (Tokens.move change tokens) next)
    (accepted : TopicCounts.commit change view = .ok () next) (member : change.word ∈ slice.words)
    (source : change.source ∈ tokens) : Answers view change := by
  apply answers_of_accepted accepted
  · intro word topic
    rw [shows'.wordCounts, shows.wordCounts]
    by_cases inside : word ∈ slice.words
    · have moved := congrArg (Nat.cast : Nat → Int) (Tokens.count_move source ⟨word, topic⟩)
      push_cast at moved
      rw [if_pos inside, if_pos inside]
      omega
    · have apart : ∀ token : Token, token.word = change.word → (⟨word, topic⟩ : Token) ≠ token := by
        rintro token own rfl
        obtain rfl : word = change.word := own
        exact inside member
      rw [if_neg inside, if_neg inside, if_neg (apart change.target rfl),
        if_neg (apart change.source rfl)]
      rfl
  · intro topic
    have moved := congrArg (Nat.cast : Nat → Int) (Tokens.ofTopic_move source topic)
    push_cast at moved
    rw [shows'.totals, shows.totals]
    omega

/-- What a sampler and a consumer of events see of the two views. -/
structure Agree (recording : Bool) (inPlace : InPlace) (overlay : Overlay) : Prop where
  wordCounts : ∀ word topic, TopicCounts.wordCount inPlace word topic =
    TopicCounts.wordCount overlay word topic
  totals : ∀ topic, TopicCounts.total inPlace topic = TopicCounts.total overlay topic
  events : inPlace.events = if recording then overlay.log.events else #[]

def Merges (slice : Slice) (summary : Summary) (inPlace : InPlace) (overlay : Overlay) : Prop :=
  ∃ slice' summary', DeltaLog.mergeInto overlay.log (slice, summary) = .ok () (slice', summary') ∧
    (∀ word topic, slice'.count word topic = inPlace.slice.count word topic) ∧
    ∀ topic, summary'.get topic = inPlace.summary.get topic

/-- The tokens that tie the two views: the one counts them,
the other has turned the first ones into them. -/
structure Twins (slice : Slice) (summary : Summary) (limit : Nat → Nat) (recording : Bool)
    (before after : Multiset Token) (inPlace : InPlace) (overlay : Overlay) : Prop where
  counted : Counted inPlace.slice inPlace.summary limit after
  follows : Overlay.Follows slice summary before after overlay
  shape : slice.SameShape inPlace.slice
  size : inPlace.summary.numTopics = summary.numTopics
  recorded : inPlace.recording = recording
  events : inPlace.events = if recording then overlay.log.events else #[]

section Twins

variable {slice : Slice} {summary : Summary} {limit : Nat → Nat} {recording : Bool}
  {before after : Multiset Token}
  {inPlace : InPlace} {overlay : Overlay} {change : Change}

theorem twins_start (counted : Counted slice summary limit before) (recording : Bool) :
    Twins slice summary limit recording before before (InPlace.start slice summary recording)
      (Overlay.start slice summary) := by
  refine ⟨counted, Overlay.start_follows slice summary before, Slice.SameShape.refl slice,
    rfl, rfl, ?_⟩
  cases recording <;> rfl

theorem Twins.move (base : Counted slice summary limit before)
    (twins : Twins slice summary limit recording before after inPlace overlay)
    (member : change.word ∈ slice.words) (source : change.source ∈ after)
    (new : change.new < summary.numTopics) :
    ∃ inPlace' overlay', InPlace.commit change inPlace = .ok () inPlace' ∧
      Overlay.commit change overlay = .ok () overlay' ∧
      Twins slice summary limit recording before (Tokens.move change after) inPlace' overlay' := by
  obtain ⟨rows, totals, recorded, events⟩ := inPlace
  obtain ⟨counted, follows, shape, size, rfl, same⟩ := twins
  dsimp only at counted shape size same
  have tallies : slice.Tallies limit (before + 0) := by
    rw [add_zero]
    exact base.rows
  have member' : change.word ∈ rows.words := shape.words ▸ member
  obtain ⟨rows', totals', done, counted', shape', size'⟩ :=
    counted.commit member' source (size ▸ new) recorded events
  obtain ⟨overlay', logged, follows', events'⟩ := follows.commit tallies member source
  refine ⟨_, overlay', done, logged, counted', follows', shape.trans shape',
    size'.trans size, rfl, ?_⟩
  rw [events', same]
  cases recorded <;> rfl

theorem Twins.commit_unknown (base : Counted slice summary limit before)
    (twins : Twins slice summary limit recording before after inPlace overlay)
    (foreign : change.word ∉ slice.words) :
    InPlace.commit change inPlace = .error (.unknownWord change.word slice.id) inPlace ∧
      Overlay.commit change overlay = .error (.unknownWord change.word slice.id) overlay := by
  obtain ⟨rows, totals, recorded, events⟩ := inPlace
  obtain ⟨counted, follows, shape, _⟩ := twins
  have missing : change.word ∉ rows.words := shape.words ▸ foreign
  have refused := counted.commit_unknown missing recorded events
  rw [shape.id] at refused
  exact ⟨refused, follows.commit_unknown base.rows.valid foreign⟩

/-- Both views refuse a token that is not there, for one reason as long as the table is not full. -/
theorem Twins.commit_absent (base : Counted slice summary limit before)
    (twins : Twins slice summary limit recording before after inPlace overlay)
    (member : change.word ∈ slice.words) (exceeds : slice.Exceeds change.word (limit change.word))
    (absent : change.source ∉ after) (old : change.old < summary.numTopics) :
    InPlace.commit change inPlace = .error (.negativeCount change.old (-1)) inPlace ∧
      Overlay.commit change overlay = .error (.negativeCount change.old (-1)) overlay := by
  obtain ⟨rows, totals, recorded, events⟩ := inPlace
  obtain ⟨counted, follows, shape, size, _⟩ := twins
  dsimp only at counted shape size
  have tallies : slice.Tallies limit (before + 0) := by
    rw [add_zero]
    exact base.rows
  have refused := counted.commit_absent (shape.words ▸ member) (exceeds.of_shape shape) absent
    (size ▸ old) recorded events
  exact ⟨refused, follows.commit_absent tallies member (by rwa [add_zero])⟩

theorem Twins.commit (base : Counted slice summary limit before)
    (exceeds : ∀ word, slice.Exceeds word (limit word))
    (twins : Twins slice summary limit recording before after inPlace overlay)
    (old : change.old < summary.numTopics) (new : change.new < summary.numTopics) :
    (∃ inPlace' overlay', InPlace.commit change inPlace = .ok () inPlace' ∧
      Overlay.commit change overlay = .ok () overlay' ∧ change.word ∈ slice.words ∧
      change.source ∈ after ∧
      Twins slice summary limit recording before (Tokens.move change after) inPlace' overlay') ∨
    ∃ fault, InPlace.commit change inPlace = .error fault inPlace ∧
      Overlay.commit change overlay = .error fault overlay := by
  by_cases member : change.word ∈ slice.words
  · by_cases source : change.source ∈ after
    · obtain ⟨inPlace', overlay', done, logged, twins'⟩ := twins.move base member source new
      exact Or.inl ⟨inPlace', overlay', done, logged, member, source, twins'⟩
    · exact Or.inr ⟨_, twins.commit_absent base member (exceeds _) source old⟩
  · exact Or.inr ⟨_, twins.commit_unknown base member⟩

theorem Twins.shows (base : Counted slice summary limit before)
    (twins : Twins slice summary limit recording before after inPlace overlay) :
    Shows slice after inPlace ∧ Shows slice after overlay := by
  rw [← add_zero before] at base
  constructor
  · constructor
    · intro word topic
      split
      · next member => exact twins.counted.rows.counts word (twins.shape.words ▸ member) topic
      · next foreign =>
        exact twins.counted.rows.valid.count_of_not_mem (twins.shape.words ▸ foreign) topic
    · intro topic
      exact twins.counted.totals.get_eq twins.counted.topics topic
  · constructor
    · intro word topic
      split
      · next member =>
        have read := twins.follows.wordCount_eq base.rows member topic
        rwa [add_zero] at read
      · next foreign => exact twins.follows.wordCount_foreign base.rows.valid foreign topic
    · intro topic
      have read := twins.follows.total_eq base.totals base.topics topic
      rwa [add_zero] at read

theorem Twins.agree (base : Counted slice summary limit before)
    (twins : Twins slice summary limit recording before after inPlace overlay) :
    Agree recording inPlace overlay := by
  obtain ⟨own, other⟩ := twins.shows base
  constructor
  · intro word topic
    rw [own.wordCounts, other.wordCounts]
  · intro topic
    rw [own.totals, other.totals]
  · exact twins.events

theorem Twins.merges (base : Counted slice summary limit before)
    (twins : Twins slice summary limit recording before after inPlace overlay) :
    Merges slice summary inPlace overlay := by
  have topics : ∀ token ∈ after, token.topic < summary.numTopics :=
    twins.size ▸ twins.counted.topics
  have within : ∀ word ∈ slice.words, Tokens.ofWord (after + 0) word ≤ limit word := by
    rw [add_zero, ← twins.shape.words]
    exact twins.counted.rows.within
  have alone : Counted slice summary limit (before + 0) := by
    rw [add_zero]
    exact base
  obtain ⟨slice', summary', merged, counted, shape, size⟩ :=
    alone.mergeInto twins.follows.turns twins.follows.foreign topics within
  rw [add_zero] at counted
  refine ⟨slice', summary', merged, ?_, ?_⟩
  · intro word topic
    by_cases member : word ∈ slice.words
    · rw [counted.rows.counts word (shape.words ▸ member),
        twins.counted.rows.counts word (twins.shape.words ▸ member)]
    · rw [counted.rows.valid.count_of_not_mem (shape.words ▸ member),
        twins.counted.rows.valid.count_of_not_mem (twins.shape.words ▸ member)]
  · intro topic
    rw [counted.totals.get_eq counted.topics, twins.counted.totals.get_eq twins.counted.topics]

theorem Twins.answers (base : Counted slice summary limit before)
    (exceeds : ∀ word, slice.Exceeds word (limit word))
    (twins : Twins slice summary limit recording before after inPlace overlay)
    (old : change.old < summary.numTopics) (new : change.new < summary.numTopics) :
    Answers inPlace change ∧ Answers overlay change := by
  rcases twins.commit base exceeds old new with ⟨inPlace', overlay', done, logged, member,
    source, twins'⟩ |
    ⟨fault, refused, denied⟩
  · obtain ⟨own, other⟩ := twins.shows base
    obtain ⟨own', other'⟩ := twins'.shows base
    exact ⟨own.answers own' done member source, other.answers other' logged member source⟩
  · exact ⟨answers_of_refused refused, answers_of_refused denied⟩

theorem Twins.tryAll (base : Counted slice summary limit before)
    (exceeds : ∀ word, slice.Exceeds word (limit word)) (changes : List Change)
    (topics : ∀ change ∈ changes, change.old < summary.numTopics ∧ change.new < summary.numTopics)
    (twins : Twins slice summary limit recording before after inPlace overlay) :
    (tryAll changes inPlace).refusals = (tryAll changes overlay).refusals ∧
      ∃ after', Twins slice summary limit recording before after'
        (LatentTopics.tryAll changes inPlace).view
        (LatentTopics.tryAll changes overlay).view := by
  induction changes generalizing after inPlace overlay with
  | nil => exact ⟨rfl, after, twins⟩
  | cons change changes ih =>
      obtain ⟨old, new⟩ := topics change List.mem_cons_self
      have rest := fun later member => topics later (List.mem_cons_of_mem change member)
      rcases twins.commit base exceeds old new with
        ⟨inPlace', overlay', done, logged, _, _, twins'⟩ | ⟨fault, refused, denied⟩
      · obtain ⟨same, last, tied⟩ := ih rest twins'
        simp only [LatentTopics.tryAll, TopicCounts.commit, done, logged, same]
        exact ⟨trivial, last, tied⟩
      · obtain ⟨same, last, tied⟩ := ih rest twins
        simp only [LatentTopics.tryAll, TopicCounts.commit, refused, denied, same]
        exact ⟨trivial, last, tied⟩

end Twins

/-- Two views of a slice of a consistent store: whatever changes are
tried, they accept and refuse the same ones for the same reasons,
show the same counts and events, and leave the same counts behind. -/
theorem views_agree {terms : List (Nat × Nat)} {numTopics loadFactor : Nat} {vocab : Vocabulary}
    (limits : Cells) (made : Vocabulary.ofFrequencies terms numTopics loadFactor = .ok vocab)
    (small : ∀ entry ∈ vocab.words, entry.frequency ≤ 2147483647)
    (room : ∀ entry ∈ vocab.words, ∀ capacity, entry.kind = .sparse capacity →
      2 * entry.frequency ≤ capacity)
    {store : Store} (reached : Store.Reachable (vocab.slice limits) store)
    (consistent : store.check (vocab.slice limits) = .ok ())
    {id : Nat} {slice : Slice} (here : store.slices[id]? = some slice) (recording : Bool)
    (changes : List Change)
    (topics : ∀ change ∈ changes, change.old < numTopics ∧ change.new < numTopics) :
    let inPlace := tryAll changes (InPlace.start slice store.summary recording)
    let overlay := tryAll changes (Overlay.start slice store.summary)
    inPlace.refusals = overlay.refusals ∧ Agree recording inPlace.view overlay.view ∧
      Merges slice store.summary inPlace.view overlay.view ∧
      ∀ change : Change, change.old < numTopics → change.new < numTopics →
        Answers inPlace.view change ∧ Answers overlay.view change := by
  intro inPlace overlay
  have lawful := Vocabulary.lawful_of_frequencies made limits
  have spacious := Vocabulary.spacious_of_frequencies made limits small room
  have fits := reached.fits lawful
  obtain ⟨tallies, _⟩ := fits.tallies_of_check lawful spacious consistent
  have base := tallies.counted id slice here
  have exceeds := fits.exceeds lawful (Vocabulary.frequency_lt_of_frequencies made limits room) here
  have size : store.summary.numTopics = numTopics := by
    rw [← Vocabulary.numTopics_of_frequencies made]
    exact fits.numTopics
  rw [← size] at topics ⊢
  obtain ⟨same, last, tied⟩ := (twins_start base recording).tryAll base exceeds changes topics
  exact ⟨same, tied.agree base, tied.merges base, fun change old new =>
    tied.answers base exceeds old new⟩

theorem views_agree_lone :
    let slice : Slice := ⟨0, #[7], ⟨2, #[1, 1], #[], #[.dense 0]⟩⟩
    let summary : Summary := ⟨#[1, 1]⟩
    let changes : List Change := [⟨7, 1, 0⟩, ⟨7, 1, 0⟩, ⟨8, 0, 1⟩, ⟨7, 0, 0⟩]
    let inPlace := tryAll changes (InPlace.start slice summary true)
    let overlay := tryAll changes (Overlay.start slice summary)
    inPlace.refusals = overlay.refusals ∧ Agree true inPlace.view overlay.view ∧
      Merges slice summary inPlace.view overlay.view ∧
      ∀ change : Change, change.old < 2 → change.new < 2 →
        Answers inPlace.view change ∧ Answers overlay.view change := by
  intro slice summary changes
  exact views_agree ⟨0, 0⟩ Vocabulary.ofFrequencies_lone (by simp) (by simp) Store.reachable_lone
    (by decide +kernel)
    (Array.getElem?_eq_getElem Nat.zero_lt_one) true changes (by simp [changes])

end LatentTopics
