import Mathlib
import LatentTopics.Proofs.Corpus.Words
import LatentTopics.Proofs.Engine.Turns
import LatentTopics.Proofs.Vocabulary.Seats

/-! The schedule of an iteration. Slice after slice, every document goes
to the worker of its run, who visits the tokens with words of the slice.
So every token has its place in the schedule, and no second one. -/
namespace LatentTopics

structure Vocabulary.Knows (vocab : Vocabulary) (docs : Array Document) : Prop where
  lawful : vocab.Lawful
  known : ∀ doc ∈ docs, ∀ word ∈ doc.words, ∃ entry ∈ vocab.words, entry.word = word

def Document.indexesIn (vocab : Vocabulary) (entry : SliceMeta) (doc : Document) : List Nat :=
  (List.range doc.size).filter fun index => (vocab.indexIn? entry (doc.words.getD index 0)).isSome

structure Task where
  slice : Nat
  worker : Nat
  document : Nat
  indexes : List Nat
  deriving DecidableEq, Repr

def Task.tokens (task : Task) : List (Nat × Nat) :=
  task.indexes.map fun index => (task.document, index)

namespace Engine

def sliceSchedule (vocab : Vocabulary) (workers : Nat) (docs : Array Document)
    (entry : SliceMeta) : List Task :=
  docs.toList.zipIdx.map fun (doc, document) =>
    ⟨entry.id, document / chunkSize docs.size workers, document, doc.indexesIn vocab entry⟩

def schedule (vocab : Vocabulary) (workers : Nat) (docs : Array Document) : List Task :=
  vocab.slices.toList.flatMap (sliceSchedule vocab workers docs)

variable {vocab : Vocabulary} {workers : Nat} {docs : Array Document} {entry : SliceMeta}
  {task : Task}

theorem chunkSize_pos (docs workers : Nat) : 0 < chunkSize docs workers :=
  Nat.lt_of_lt_of_le Nat.zero_lt_one (Nat.le_max_right _ _)

theorem flatMap_range' (workers chunk : Nat) :
    (List.range workers).flatMap (fun worker => List.range' (worker * chunk) chunk) =
        List.range (workers * chunk) := by
  induction workers with
  | zero => simp
  | succ workers ih =>
      have next := List.range'_append_1 (s := 0) (m := workers * chunk) (n := chunk)
      rw [Nat.zero_add] at next
      rw [List.range_succ, List.flatMap_append, ih, List.flatMap_singleton, Nat.succ_mul,
        List.range_eq_range', List.range_eq_range', next]

theorem filterMap_range {α β : Type} (list : List α) (make : Nat → α → β) (count : Nat) :
    (List.range count).filterMap (fun index => list[index]?.map (make index)) =
      (list.take count).zipIdx.map fun (entry, index) => make index entry := by
  induction count with
  | zero => simp
  | succ count ih =>
      rw [List.range_succ, List.filterMap_append, ih, List.take_add_one, List.zipIdx_append,
        List.map_append]
      cases here : list[count]? with
      | none => simp [here]
      | some entry =>
          have inside := (List.getElem?_eq_some_iff.mp here).1
          have length : (list.take count).length = count := by
            rw [List.length_take, Nat.min_eq_left inside.le]
          simp [here, length]

theorem flatMap_runs {α : Type} (docs : List Document) {workers chunk : Nat}
    (enough : docs.length ≤ workers * chunk) (make : Nat → Nat → Document → α) :
    (List.range workers).flatMap (fun worker =>
        (List.range' (worker * chunk) chunk).filterMap fun index =>
          docs[index]?.map (make worker index)) =
      docs.zipIdx.map fun (doc, index) => make (index / chunk) index doc := by
  have own : ∀ worker, (List.range' (worker * chunk) chunk).filterMap (fun index =>
      docs[index]?.map (make worker index)) =
      (List.range' (worker * chunk) chunk).filterMap fun index =>
        docs[index]?.map (make (index / chunk) index) := by
    intro worker
    apply List.filterMap_congr
    intro index member
    obtain ⟨least, most⟩ := List.mem_range'_1.mp member
    have same : index / chunk = worker :=
      Nat.div_eq_of_lt_le least (by rw [Nat.succ_mul]; exact most)
    rw [same]
  have whole := filterMap_range docs (fun index => make (index / chunk) index) (workers * chunk)
  rw [List.take_of_length_le enough, ← flatMap_range', List.filterMap_flatMap] at whole
  rw [← whole]
  exact List.flatMap_congr fun worker _ => own worker

theorem mem_sliceSchedule (member : task ∈ sliceSchedule vocab workers docs entry) :
    ∃ doc, docs[task.document]? = some doc ∧ task.slice = entry.id ∧
      task.worker = task.document / chunkSize docs.size workers ∧
      task.indexes = doc.indexesIn vocab entry := by
  obtain ⟨⟨doc, document⟩, listed, rfl⟩ := List.mem_map.mp member
  rw [List.mem_zipIdx_iff_getElem?, Array.getElem?_toList] at listed
  exact ⟨doc, listed, rfl, rfl, rfl⟩

theorem mem_indexesIn {doc : Document} {index : Nat} :
    index ∈ doc.indexesIn vocab entry ↔
      ∃ word, doc.words[index]? = some word ∧ (vocab.indexIn? entry word).isSome := by
  rw [Document.indexesIn, List.mem_filter, List.mem_range, ← doc.size_words]
  constructor
  · rintro ⟨inside, found⟩
    have here := Array.getElem?_eq_getElem inside
    rw [Arrays.getD_of_getElem? here] at found
    exact ⟨_, here, found⟩
  · rintro ⟨word, here, found⟩
    refine ⟨(Array.getElem?_eq_some_iff.mp here).1, ?_⟩
    rwa [Arrays.getD_of_getElem? here]

theorem worker_lt (positive : 0 < workers) {document : Nat} (inside : document < docs.size) :
    document / chunkSize docs.size workers < workers := by
  rw [Nat.div_lt_iff_lt_mul (chunkSize_pos _ _)]
  exact inside.trans_le (le_mul_chunkSize docs.size positive)

theorem mem_tokens_sliceSchedule {document index : Nat} :
    (document, index) ∈ (sliceSchedule vocab workers docs entry).flatMap Task.tokens ↔
      ∃ doc word, docs[document]? = some doc ∧ doc.words[index]? = some word ∧
      (vocab.indexIn? entry word).isSome := by
  rw [List.mem_flatMap]
  constructor
  · rintro ⟨task, member, inside⟩
    obtain ⟨doc, here, _, _, indexes⟩ := mem_sliceSchedule member
    obtain ⟨place, listed, same⟩ := List.mem_map.mp inside
    cases same
    rw [indexes] at listed
    obtain ⟨word, there, found⟩ := mem_indexesIn.mp listed
    exact ⟨doc, word, here, there, found⟩
  · rintro ⟨doc, word, here, there, found⟩
    rw [← Array.getElem?_toList] at here
    exact ⟨_, List.mem_map.mpr ⟨(doc, document), List.mem_zipIdx_iff_getElem?.mpr here, rfl⟩,
      List.mem_map.mpr ⟨index, mem_indexesIn.mpr ⟨word, there, found⟩, rfl⟩⟩

theorem nodup_tokens_sliceSchedule :
    ((sliceSchedule vocab workers docs entry).flatMap Task.tokens).Nodup := by
  rw [List.nodup_flatMap]
  constructor
  · intro task member
    obtain ⟨doc, _, _, _, indexes⟩ := mem_sliceSchedule member
    rw [Task.tokens, indexes]
    exact (List.nodup_range.filter _).map (Prod.mk_right_injective task.document)
  · have documents : ((sliceSchedule vocab workers docs entry).map Task.document).Nodup := by
      rw [sliceSchedule, List.map_map]
      have numbers := List.nodup_range' (s := 0) (n := docs.toList.length)
      rwa [← List.zipIdx_map_snd 0 docs.toList] at numbers
    refine (List.pairwise_map.mp documents).imp ?_
    intro first second different token here there
    obtain ⟨index, _, rfl⟩ := List.mem_map.mp here
    obtain ⟨other, _, same⟩ := List.mem_map.mp there
    exact different (congrArg Prod.fst same).symm

/-- The slices share out the tokens. -/
theorem schedule_tokens (workers : Nat) (knows : vocab.Knows docs) :
    ((schedule vocab workers docs).flatMap Task.tokens).Nodup ∧
      ∀ document index, (document, index) ∈ (schedule vocab workers docs).flatMap Task.tokens ↔
        ∃ doc, docs[document]? = some doc ∧ index < doc.size := by
  obtain ⟨⟨ordered, _, sliced⟩, known⟩ := knows
  rw [schedule, List.flatMap_assoc]
  constructor
  · rw [List.nodup_flatMap]
    refine ⟨fun entry _ => nodup_tokens_sliceSchedule, ?_⟩
    rw [List.pairwise_iff_getElem]
    rintro first second inside inside' before ⟨document, index⟩ here there
    obtain ⟨doc, word, owner, read, found⟩ := mem_tokens_sliceSchedule.mp here
    obtain ⟨doc', word', owner', read', found'⟩ := mem_tokens_sliceSchedule.mp there
    rw [owner] at owner'
    obtain rfl := Option.some.inj owner'
    rw [read] at read'
    obtain rfl := Option.some.inj read'
    obtain ⟨place, found⟩ := Option.isSome_iff_exists.mp found
    obtain ⟨place', found'⟩ := Option.isSome_iff_exists.mp found'
    obtain ⟨entry, seats, same⟩ := (Vocabulary.indexIn?_eq_some ordered _ word place).mp found
    obtain ⟨entry', seats', same'⟩ := (Vocabulary.indexIn?_eq_some ordered _ word place').mp found'
    rw [Array.length_toList] at inside inside'
    have one :=
      (sliced.seats_unique ordered (Array.getElem?_eq_getElem inside) seats
      (Array.getElem?_eq_getElem inside') seats' (same.trans same'.symm)).1
    omega
  · intro document index
    rw [List.mem_flatMap]
    constructor
    · rintro ⟨entry, _, inside⟩
      obtain ⟨doc, word, here, there, _⟩ := mem_tokens_sliceSchedule.mp inside
      exact ⟨doc, here, doc.size_words ▸ (Array.getElem?_eq_some_iff.mp there).1⟩
    · rintro ⟨doc, here, inside⟩
      rw [← doc.size_words] at inside
      have there := Array.getElem?_eq_getElem inside
      obtain ⟨entry, listed, same⟩ :=
        known doc (Array.mem_of_getElem? here) _ (Array.mem_of_getElem? there)
      obtain ⟨id, run, place, slice, seats⟩ := sliced.exists_seats listed
      have found := (Vocabulary.indexIn?_eq_some ordered run _ place).mpr ⟨entry, seats, same⟩
      refine ⟨run, Array.mem_toList_iff.mpr (Array.mem_of_getElem? slice), ?_⟩
      exact mem_tokens_sliceSchedule.mpr ⟨doc, _, here, there, by rw [found]; rfl⟩

/-- Two slices and two workers, of whom the first takes two documents. -/
example :
    schedule ⟨2, #[⟨3, 1, .dense, true⟩, ⟨7, 2, .dense, true⟩],
        #[⟨0, 3, 3, 0, 1⟩, ⟨1, 7, 7, 1, 2⟩]⟩ 2
    #[⟨#[⟨3, 0⟩, ⟨7, 1⟩], 1⟩, ⟨#[], 0⟩, ⟨#[⟨7, 0⟩], 0⟩] =
      [⟨0, 0, 0, [0]⟩, ⟨0, 0, 1, []⟩, ⟨0, 1, 2, []⟩, ⟨1, 0, 0, [1]⟩, ⟨1, 0, 1, []⟩,
        ⟨1, 1, 2, [0]⟩] := by
  decide +kernel

end Engine

end LatentTopics
