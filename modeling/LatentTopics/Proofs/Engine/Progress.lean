import Mathlib
import LatentTopics.Proofs.Engine.Itinerary
import LatentTopics.Proofs.Engine.Schedule

/-! How far a pass has come. Before slice `id` the cursor of a document parts the words of the
slices before from the others, and the statistics of the samplers count the tokens behind the
cursors. A worker who takes its documents does what the schedule says, and passes this on. -/
namespace LatentTopics

namespace Document

/-- In front of slice `id`: a sweep begins behind the words of the slices before. -/
structure Stands (vocab : Vocabulary) (id : Nat) (doc : Document) : Prop where
  sorted : doc.Sorted
  within : doc.opening id ≤ doc.size
  parts : ∀ position word, doc.words[position]? = some word →
    (position < doc.opening id ↔ ∃ earlier < id, ∃ entry, vocab.slices[earlier]? = some entry ∧
      word ≤ entry.lastWord)

variable {vocab : Vocabulary} {id visited : Nat} {entry : SliceMeta} {doc after : Document}

theorem Sorted.stands (sorted : doc.Sorted) (vocab : Vocabulary) : doc.Stands vocab 0 := by
  refine ⟨sorted, Nat.zero_le _, ?_⟩
  intro position word _
  constructor
  · exact fun less => absurd less (Nat.not_lt_zero position)
  · rintro ⟨earlier, less, _⟩
    exact absurd less (Nat.not_lt_zero earlier)

theorem Resumed.opening (resumed : doc.Resumed entry visited after) (own : entry.id = id) :
    after.opening (id + 1) = doc.opening id + visited :=
  own ▸ resumed.cursor

theorem Stands.next (stands : doc.Stands vocab id) (resumed : doc.Resumed entry visited after)
    (own : entry.id = id) (there : vocab.slices[id]? = some entry) :
    after.Stands vocab (id + 1) := by
  have moved := resumed.opening own
  obtain ⟨words, _, within, passed, stopped⟩ := resumed
  rw [own] at within passed stopped
  refine ⟨?_, ?_, ?_⟩
  · rw [sorted_iff, words]
    exact doc.sorted_iff.mp stands.sorted
  · rw [moved, ← after.size_words, words, doc.size_words]
    exact within
  · intro position word here
    rw [words] at here
    rw [moved]
    constructor
    · intro below
      by_cases behind : position < doc.opening id
      · obtain ⟨earlier, less, found⟩ := (stands.parts position word here).mp behind
        exact ⟨earlier, Nat.lt_succ_of_lt less, found⟩
      · exact ⟨id, Nat.lt_succ_self id, entry, there,
          passed position word (not_lt.mp behind) below here⟩
    · rintro ⟨earlier, less, run, place, small⟩
      by_contra beyond
      -- The word that stopped the sweep is not beyond this
      -- one, so that neither is a word of the slice.
      rcases Nat.eq_or_lt_of_le (Nat.le_of_lt_succ less) with rfl | before
      · rw [there] at place
        obtain rfl := Option.some.inj place
        have inside := (Array.getElem?_eq_some_iff.mp here).1
        have next := Array.getElem?_eq_getElem (lt_of_le_of_lt (not_lt.mp beyond) inside)
        have := stopped _ next
        have := stands.sorted.le (not_lt.mp beyond) next here
        omega
      · have := (stands.parts position word here).mpr ⟨earlier, before, run, place, small⟩
        omega

theorem filter_range {size first count : Nat} {p : Nat → Bool} (within : first + count ≤ size)
    (inside : ∀ index < size, p index = true ↔ first ≤ index ∧ index < first + count) :
    (List.range size).filter p = List.range' first count := by
  obtain ⟨rest, rfl⟩ := Nat.exists_eq_add_of_le within
  have split : List.range (first + count + rest) =
      List.range' 0 first ++ (List.range' first count ++ List.range' (first + count) rest) := by
    have whole := List.range'_append_1 (s := 0) (m := first) (n := count + rest)
    rw [Nat.zero_add] at whole
    rw [List.range'_append_1, whole, List.range_eq_range', Nat.add_assoc]
  have outside : ∀ start length, start + length ≤ first ∨ first + count ≤ start →
      start + length ≤ first + count + rest →
      (List.range' start length).filter p = [] := by
    intro start length apart most
    rw [List.filter_eq_nil_iff]
    intro index member
    have := List.mem_range'_1.mp member
    rw [inside index (by omega)]
    omega
  have own : (List.range' first count).filter p = List.range' first count := by
    rw [List.filter_eq_self]
    intro index member
    have := List.mem_range'_1.mp member
    rw [inside index (by omega)]
    omega
  rw [split, List.filter_append, List.filter_append, outside 0 first (by omega) (by omega), own,
    outside (first + count) rest (by omega) (by omega), List.nil_append, List.append_nil]

theorem Stands.indexesIn (stands : doc.Stands vocab id) (resumed : doc.Resumed entry visited after)
    (own : entry.id = id) (there : vocab.slices[id]? = some entry) (lawful : vocab.Lawful)
    (known : ∀ word ∈ doc.words, ∃ entry ∈ vocab.words, entry.word = word) :
    doc.indexesIn vocab entry = List.range' (doc.opening entry.id) visited := by
  have parts := (stands.next resumed own there).parts
  have within := resumed.within
  rw [resumed.words, resumed.opening own, ← own] at parts
  have parts' := own ▸ stands.parts
  apply filter_range within
  intro index inside
  rw [← doc.size_words] at inside
  have here := Array.getElem?_eq_getElem inside
  obtain ⟨entry', listed, same⟩ := known _ (Array.getElem_mem inside)
  obtain ⟨home, run, place, slice, seats⟩ := lawful.sliced.exists_seats listed
  rw [Arrays.getD_of_getElem? here, ← same,
    lawful.sliced.isSome_indexIn? lawful.ordered slice seats there]
  have now := parts index _ here
  have before := parts' index _ here
  rw [← same, lawful.sliced.exists_earlier_iff lawful.ordered slice seats] at now before
  omega

theorem Stands.opening_eq_size (stands : doc.Stands vocab vocab.slices.size) (lawful : vocab.Lawful)
    (known : ∀ word ∈ doc.words, ∃ entry ∈ vocab.words, entry.word = word) :
    doc.opening vocab.slices.size = doc.size := by
  refine Nat.le_antisymm stands.within ?_
  by_contra less
  rw [not_le, ← doc.size_words] at less
  have here := Array.getElem?_eq_getElem less
  obtain ⟨entry, listed, same⟩ := known _ (Array.getElem_mem less)
  obtain ⟨home, run, place, slice, seats⟩ := lawful.sliced.exists_seats listed
  have behind := stands.parts _ _ here
  rw [← same, lawful.sliced.exists_earlier_iff lawful.ordered slice seats] at behind
  exact absurd (behind.mpr (Array.getElem?_eq_some_iff.mp slice).1) (Nat.lt_irrefl _)

theorem indexesIn_congr (same : after.words = doc.words) (vocab : Vocabulary) (entry : SliceMeta) :
    after.indexesIn vocab entry = doc.indexesIn vocab entry := by
  rw [indexesIn, indexesIn, ← size_words, ← size_words, same]

end Document

theorem Document.forall_words {docs given : Array Document} {P : Array Nat → Prop}
    (same : docs.map Document.words = given.map Document.words)
    (every : ∀ doc ∈ given, P doc.words) : ∀ doc ∈ docs, P doc.words := by
  intro doc member
  have listed : doc.words ∈ given.map Document.words := same ▸ Array.mem_map_of_mem member
  obtain ⟨old, inside, own⟩ := Array.mem_map.mp listed
  exact own ▸ every old inside

theorem Vocabulary.Knows.congr {vocab : Vocabulary} {docs given : Array Document}
    (knows : vocab.Knows given) (same : docs.map Document.words = given.map Document.words) :
    vocab.Knows docs :=
  ⟨knows.lawful, Document.forall_words (P := fun words => ∀ word ∈ words, ∃ entry ∈ vocab.words,
    entry.word = word) same knows.known⟩

theorem sum_set {list : List Nat} {index old : Nat} (here : list[index]? = some old) (value : Nat) :
    (list.set index value).sum + old = list.sum + value := by
  induction list generalizing index with
  | nil => cases here
  | cons first list ih =>
      cases index with
      | zero =>
          obtain rfl := Option.some.inj here
          simp only [List.set_cons_zero, List.sum_cons]
          omega
      | succ index =>
          have rest := ih here
          simp only [List.set_cons_succ, List.sum_cons]
          omega

/-- Documents in a pass over slice `id`, with those before number `bound` done. -/
structure Midway (vocab : Vocabulary) (given : Array Document) (id bound : Nat)
    (docs : Array Document) : Prop where
  words : docs.map Document.words = given.map Document.words
  stands : ∀ (number : Nat) (doc : Document), docs[number]? = some doc →
    doc.Stands vocab (if number < bound then id + 1 else id)

/-- How many tokens lie behind the cursors. -/
def openings (id bound : Nat) (docs : Array Document) : Nat :=
  (docs.toList.mapIdx fun number doc => doc.opening (if number < bound then id + 1 else id)).sum

namespace Midway

variable {vocab : Vocabulary} {given docs : Array Document} {id bound number visited : Nat}
  {entry : SliceMeta}
  {doc after : Document}

theorem size (midway : Midway vocab given id bound docs) : docs.size = given.size := by
  have sizes := congrArg Array.size midway.words
  rwa [Array.size_map, Array.size_map] at sizes

theorem words_eq (midway : Midway vocab given id bound docs) (number : Nat) :
    docs[number]?.map Document.words = given[number]?.map Document.words := by
  rw [← Array.getElem?_map, midway.words, Array.getElem?_map]

theorem openings_set (here : docs[number]? = some doc) (id : Nat) (after : Document) :
    openings id (number + 1) (docs.setIfInBounds number after) + doc.opening id =
      openings id number docs + after.opening (id + 1) := by
  obtain ⟨inside, _⟩ := Array.getElem?_eq_some_iff.mp here
  have changed : (docs.setIfInBounds number after).toList.mapIdx
        (fun other doc => doc.opening (if other < number + 1 then id + 1 else id)) =
      (docs.toList.mapIdx fun other doc =>
        doc.opening (if other < number then id + 1 else id)).set number
        (after.opening (id + 1)) := by
    apply List.ext_getElem?
    intro other
    by_cases same : number = other
    · subst same
      have listed : number < (docs.toList.mapIdx fun other doc =>
          doc.opening (if other < number then id + 1 else id)).length := by
        rwa [List.length_mapIdx, Array.length_toList]
      rw [List.getElem?_mapIdx, Array.getElem?_toList,
        Array.getElem?_setIfInBounds_self_of_lt inside, Option.map_some,
        if_pos (Nat.lt_succ_self number), List.getElem?_set_self listed]
    · have before : other < number + 1 ↔ other < number := by omega
      rw [List.getElem?_mapIdx, Array.getElem?_toList, Array.getElem?_setIfInBounds_ne same,
        List.getElem?_set_ne same, List.getElem?_mapIdx, Array.getElem?_toList]
      simp only [before]
  have old : (docs.toList.mapIdx fun other doc =>
      doc.opening (if other < number then id + 1 else id))[number]? =
      some (doc.opening id) := by
    rw [List.getElem?_mapIdx, Array.getElem?_toList, here, Option.map_some,
      if_neg (Nat.lt_irrefl number)]
  rw [openings, openings, changed]
  exact sum_set old (after.opening (id + 1))

theorem next (midway : Midway vocab given id number docs) (here : docs[number]? = some doc)
    (resumed : doc.Resumed entry visited after) (own : entry.id = id)
    (there : vocab.slices[id]? = some entry) :
    Midway vocab given id (number + 1) (docs.setIfInBounds number after) ∧
      openings id (number + 1) (docs.setIfInBounds number after) = openings id number docs +
        visited := by
  obtain ⟨inside, found⟩ := Array.getElem?_eq_some_iff.mp here
  have standing : doc.Stands vocab id := by
    have stands := midway.stands number doc here
    rwa [if_neg (Nat.lt_irrefl number)] at stands
  refine ⟨⟨?_, ?_⟩, ?_⟩
  · rw [← midway.words]
    apply Array.ext_getElem?
    intro other
    rw [Array.getElem?_map, Array.getElem?_map]
    by_cases same : number = other
    · subst same
      rw [Array.getElem?_setIfInBounds_self_of_lt inside, here, Option.map_some, Option.map_some,
        resumed.words]
    · rw [Array.getElem?_setIfInBounds_ne same]
  · intro other doc' found'
    rcases Arrays.getElem?_set_cases inside found' with ⟨rfl, rfl⟩ | ⟨different, old⟩
    · rw [if_pos (Nat.lt_succ_self other)]
      exact standing.next resumed own there
    · have before : other < number + 1 ↔ other < number := by omega
      simp only [before]
      exact midway.stands other doc' old
  · have sums := openings_set here id after
    rw [resumed.opening own] at sums
    omega

theorem congr (midway : Midway vocab given id bound docs) (other place : Nat)
    (same : ∀ number < docs.size, (if number < bound then id + 1 else id) =
      if number < other then place + 1 else place) :
    Midway vocab given place other docs ∧ openings place other docs = openings id bound docs := by
  refine ⟨⟨midway.words, ?_⟩, ?_⟩
  · intro number doc here
    rw [← same number (Array.getElem?_eq_some_iff.mp here).1]
    exact midway.stands number doc here
  · rw [openings, openings]
    congr 1
    apply List.ext_getElem?
    intro number
    rw [List.getElem?_mapIdx, List.getElem?_mapIdx, Array.getElem?_toList]
    cases here : docs[number]? with
    | none => rfl
    | some doc =>
        rw [Option.map_some, Option.map_some, same number (Array.getElem?_eq_some_iff.mp here).1]

theorem openings_eq_sum (midway : Midway vocab given id 0 docs) (reach : Array Nat → Nat)
    (ends : ∀ doc ∈ docs, doc.Stands vocab id → doc.opening id = reach doc.words) :
    openings id 0 docs = (given.toList.map fun doc => reach doc.words).sum := by
  have same := congrArg (fun words : Array (Array Nat) => words.toList.map reach) midway.words
  simp only [Array.toList_map, List.map_map, Function.comp_def] at same
  rw [openings, ← same]
  congr 1
  apply List.ext_getElem?
  intro number
  rw [List.getElem?_mapIdx, List.getElem?_map, Array.getElem?_toList,
    if_neg (Nat.not_lt_zero number)]
  cases here : docs[number]? with
  | none => rfl
  | some doc =>
      have stands := midway.stands number doc here
      rw [if_neg (Nat.not_lt_zero number)] at stands
      rw [Option.map_some, Option.map_some, ends doc (Array.mem_of_getElem? here) stands]

theorem finished (knows : vocab.Knows given) (some : 0 < vocab.slices.size)
    (midway : Midway vocab given vocab.slices.size 0 docs) :
    (∀ doc ∈ docs, doc.cursor = doc.size) ∧
      openings vocab.slices.size 0 docs = Block.numTokens ⟨given⟩ := by
  have ends : ∀ doc ∈ docs, doc.Stands vocab vocab.slices.size →
      doc.opening vocab.slices.size = doc.words.size := by
    intro doc member stands
    rw [doc.size_words]
    exact stands.opening_eq_size knows.lawful ((knows.congr midway.words).known doc member)
  constructor
  · intro doc member
    obtain ⟨number, here⟩ := Array.getElem?_of_mem member
    have stands := midway.stands number doc here
    rw [if_neg (Nat.not_lt_zero number)] at stands
    rw [← doc.size_words, ← ends doc member stands, Document.opening, if_neg (Nat.ne_of_gt some)]
  · rw [midway.openings_eq_sum Array.size ends]
    simp only [Document.size_words]
    rfl

end Midway

/-- A sampler with this many rounds for a token, which has reported all its proposals. -/
structure Sampler.Balanced (rounds : Nat) (sampler : Sampler) : Prop where
  mhStep : sampler.mhStep = rounds
  proposed : sampler.stats.proposed = 2 * rounds * sampler.stats.sampled

theorem Sampler.Balanced.worked {rounds visited : Nat} {sampler after : Sampler}
    (balanced : sampler.Balanced rounds) (worked : Worked visited visited sampler after) :
    after.Balanced rounds := by
  refine ⟨worked.mhStep.trans balanced.mhStep, ?_⟩
  rw [worked.proposed, worked.sampled, balanced.mhStep, balanced.proposed, Nat.mul_add]

def Turn.task (turn : Turn) : Task :=
  ⟨turn.slice, turn.worker, turn.document, turn.visits.map Visit.index⟩

namespace Shift

variable {M : Type} {vocab : Vocabulary} {given : Array Document} {id rounds base number : Nat}
  {entry : SliceMeta}
  {proposals : AliasSlice} {shift after : Shift M}

/-- A worker in a pass, when the other samplers have visited `base` tokens. -/
structure OnTime (vocab : Vocabulary) (given : Array Document) (id rounds base number : Nat)
    (shift : Shift M) : Prop where
  midway : Midway vocab given id number shift.docs
  balanced : shift.sampler.Balanced rounds
  sampled : base + shift.sampler.stats.sampled = openings id number shift.docs

variable [TopicCounts M]

theorem OnTime.next (knows : vocab.Knows given)
    (onTime : OnTime vocab given id rounds base number shift) (own : entry.id = id)
    (there : vocab.slices[id]? = some entry)
    (done : visitDoc (Sampler.sampleDoc entry proposals) number shift = .ok () after) :
    OnTime vocab given id rounds base (number + 1) after ∧
      ∀ worker, (turn? entry proposals worker number shift).map Turn.task =
        given[number]?.map fun doc => ⟨entry.id, worker, number, doc.indexesIn vocab entry⟩ := by
  obtain ⟨midway, balanced, sampled⟩ := onTime
  rcases visitDoc_cases done with ⟨beyond, rfl⟩ | ⟨doc, visited, bench, here, swept, rfl⟩
  · obtain ⟨midway', same⟩ := midway.congr (number + 1) id (by
      intro other inside
      rw [if_pos (by omega), if_pos (by omega)])
    refine ⟨⟨midway', balanced, by rw [same, sampled]⟩, ?_⟩
    intro worker
    rw [turn?, Array.getElem?_eq_none beyond, Array.getElem?_eq_none (midway.size ▸ beyond),
      Option.map_none, Option.map_none, Option.map_none]
  · have stands := midway.stands number doc here
    rw [if_neg (Nat.lt_irrefl number)] at stands
    obtain ⟨resumed, worked, indexes⟩ := Sampler.sampleDoc_resumed (own ▸ stands.within) swept
    obtain ⟨midway', sum⟩ := midway.next here resumed own there
    refine ⟨⟨midway', balanced.worked worked, ?_⟩, ?_⟩
    · rw [sum, ← sampled, worked.sampled, Nat.add_assoc]
    · intro worker
      have same := midway.words_eq number
      rw [here, Option.map_some] at same
      obtain ⟨old, there', words⟩ := Option.map_eq_some_iff.mp same.symm
      have known := words ▸ knows.known old (Array.mem_of_getElem? there')
      rw [turn?, here, there', Option.map_some, Option.map_some, Option.map_some,
        Turn.task, indexes, ← stands.indexesIn resumed own there knows.lawful known,
        Document.indexesIn_congr words.symm]

theorem OnTime.visitDocs (knows : vocab.Knows given) {index count : Nat}
    (onTime : OnTime vocab given id rounds base index shift) (own : entry.id = id)
    (there : vocab.slices[id]? = some entry)
    (done : visitDocs (Sampler.sampleDoc entry proposals) count index shift = .ok () after)
    (worker : Nat) :
    OnTime vocab given id rounds base (index + count) after ∧
      (turns entry proposals worker count index shift).map Turn.task =
        (List.range' index count).filterMap fun document =>
          given[document]?.map fun doc =>
            ⟨entry.id, worker, document, doc.indexesIn vocab entry⟩ := by
  let read : Nat × Shift M → Option Task :=
    fun stop => (turn? entry proposals worker stop.1 stop.2).map Turn.task
  let planned : Nat → Option Task := fun document =>
    given[document]?.map fun doc => ⟨entry.id, worker, document, doc.indexesIn vocab entry⟩
  have pass : ∀ (number : Nat) (shift after : Shift M),
      OnTime vocab given id rounds base number shift →
      visitDoc (Sampler.sampleDoc entry proposals) number shift = .ok () after →
      OnTime vocab given id rounds base (number + 1) after ∧
        read (number, shift) = planned number := by
    intro number shift after onTime visited
    obtain ⟨onTimeNext, tasks⟩ := onTime.next knows own there visited
    exact ⟨onTimeNext, tasks worker⟩
  obtain ⟨onTimeAfter, tasks⟩ := Update.course_map onTime pass (steps_of_visitDocs done)
  refine ⟨onTimeAfter, ?_⟩
  have listed := congrArg (List.filterMap fun task => task) tasks
  rw [List.filterMap_map, List.filterMap_map] at listed
  rw [turns_eq_course, List.map_filterMap]
  exact listed

end Shift

namespace Engine

variable {vocab : Vocabulary} {given docs : Array Document} {id rounds bound : Nat}
  {samplers : Array Sampler}

structure Accounted (vocab : Vocabulary) (given : Array Document) (id rounds bound : Nat)
    (samplers : Array Sampler) (docs : Array Document) : Prop where
  midway : Midway vocab given id bound docs
  balanced : ∀ sampler ∈ samplers, sampler.Balanced rounds
  sampled : (samplers.toList.map fun sampler => sampler.stats.sampled).sum = openings id bound docs

theorem Accounted.overlayTurn (knows : vocab.Knows given) {entry : SliceMeta}
    {proposals : AliasSlice} {slice : Slice} {summary : Summary} {chunk worker : Nat}
    {next : Array Sampler × Array Document}
    (accounted : Accounted vocab given id rounds (worker * chunk) samplers docs)
    (own : entry.id = id) (there : vocab.slices[id]? = some entry)
    (done : Engine.overlayTurn entry proposals slice summary chunk worker (samplers, docs) =
      .ok () next) :
    Accounted vocab given id rounds ((worker + 1) * chunk) next.1 next.2 ∧
      next.1.size = samplers.size ∧
      (workerTurns entry proposals slice summary chunk worker (samplers, docs)).map Turn.task =
        (List.range' (worker * chunk) chunk).filterMap fun document =>
          given[document]?.map fun doc =>
            ⟨entry.id, worker, document, doc.indexesIn vocab entry⟩ := by
  obtain ⟨midway, balanced, sampled⟩ := accounted
  obtain ⟨sampler, shift, here, visited, rfl⟩ := overlayTurn_cases done
  dsimp only at here visited ⊢
  have listed : (samplers.toList.map fun sampler => sampler.stats.sampled)[worker]? =
      some sampler.stats.sampled := by
    rw [List.getElem?_map, Array.getElem?_toList, here, Option.map_some]
  have others := sum_set listed 0
  have sums := sum_set listed shift.sampler.stats.sampled
  have onTime : Shift.OnTime vocab given id rounds
      ((samplers.toList.map fun sampler => sampler.stats.sampled).set worker 0).sum
      (worker * chunk) ⟨sampler, docs, Overlay.start slice summary⟩ :=
    ⟨midway, balanced sampler (Array.mem_of_getElem? here), by rw [others, Nat.add_zero, sampled]⟩
  obtain ⟨⟨midwayAfter, balancedAfter, sampledAfter⟩, tasks⟩ :=
    onTime.visitDocs knows own there visited worker
  rw [← Nat.succ_mul] at midwayAfter sampledAfter
  refine ⟨⟨midwayAfter, ?_, ?_⟩, Array.size_setIfInBounds, ?_⟩
  · intro other member
    rcases Array.mem_or_eq_of_mem_setIfInBounds member with old | rfl
    · exact balanced other old
    · exact balancedAfter
  · have changed : (samplers.setIfInBounds worker shift.sampler).toList.map (fun sampler =>
        sampler.stats.sampled) =
        (samplers.toList.map fun sampler => sampler.stats.sampled).set worker
          shift.sampler.stats.sampled := by
      rw [Array.toList_setIfInBounds, List.map_set]
    rw [changed, ← sampledAfter]
    omega
  · simp only [workerTurns, here]
    simpa using tasks

end Engine

end LatentTopics
