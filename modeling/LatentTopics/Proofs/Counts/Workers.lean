import Mathlib
import LatentTopics.Proofs.Counts.Shares

/-! Workers beside each other. Each has documents of its own and changes topics of their tokens,
through an overlay that shows none of the other workers' changes. Nevertheless the logs of all
workers can be merged in any order, and every order leaves the counts of the changed documents. -/
namespace LatentTopics

/-- A turn of a worker: one after another, tokens of a slice in its documents are given topics, each
of them committed to its view of the slice. -/
inductive Works (slice : Slice) (numTopics : Nat) (docs : List Document) (view : Overlay) :
    List Document → Overlay → Prop where
  | rest : Works slice numTopics docs view docs view
  | change {changed : List Document} {next after : Overlay}
      (before : Works slice numTopics docs view changed next)
      (place index topic : Nat) {doc : Document} {token : Token}
      (document : changed[place]? = some doc)
      (here : doc.tokens[index]? = some token) (own : token.word ∈ slice.words)
      (below : topic < numTopics)
      (committed : Overlay.commit ⟨token.word, token.topic, topic⟩ next = .ok () after) :
      Works slice numTopics docs view (changed.set place (doc.setTopic index topic)) after

theorem Overlay.commit_start (slice : Slice) (summary : Summary) {change : Change}
    (member : slice.contains change.word = true)
    (present : 1 ≤ slice.count change.word change.old) :
    Overlay.commit change (Overlay.start slice summary) = .ok () ⟨slice, summary,
        DeltaLog.empty.record change⟩ := by
  have none : DeltaLog.empty.wordDelta change.word change.old = 0 :=
    (DeltaLog.empty_turns 0).words _ _
  simp only [Overlay.commit, Overlay.start, Overlay.wordCount, member, none]
  rw [if_neg (by decide), if_neg (by omega)]

section Turn

variable {slice : Slice} {summary : Summary} {limit : Nat → Nat} {numTopics : Nat}
  {docs changed : List Document}
  {view : Overlay} {others : Multiset Token}

theorem Works.follows
    (works : Works slice numTopics docs (Overlay.start slice summary) changed view)
    (tallies : slice.Tallies limit (Tokens.ofDocs docs + others)) :
    Overlay.Follows slice summary (Tokens.ofDocs docs) (Tokens.ofDocs changed) view ∧
      (⟨Tokens.ofDocs docs, Tokens.ofDocs changed, view.log⟩ : Share).Turned slice.words
        numTopics := by
  induction works with
  | rest =>
      have follows := Overlay.start_follows slice summary (Tokens.ofDocs docs)
      exact ⟨follows, follows.turns, fun token _ => rfl, fun token member => Or.inl member,
        fun word => rfl⟩
  | @change changed next after before place index topic doc token document here own below
      committed ih =>
      obtain ⟨follows, turned⟩ := ih
      let change : Change := ⟨token.word, token.topic, topic⟩
      have source : change.source ∈ doc.tokens := Array.mem_of_getElem? here
      have moved := Tokens.ofDocs_set document source (doc.tokens_setTopic here topic)
      have member : change.source ∈ Tokens.ofDocs changed :=
        Tokens.mem_ofDocs.mpr ⟨doc, List.mem_of_getElem? document, source⟩
      have ownWord : change.word ∈ slice.words := own
      obtain ⟨accepted, done, follows', turned'⟩ := follows.turn turned tallies ownWord member below
      rw [done] at committed
      cases committed
      rw [moved]
      exact ⟨follows', turned'⟩

end Turn

structure Worker where
  given : List Document
  docs : List Document
  view : Overlay

namespace Worker

def log (worker : Worker) : DeltaLog :=
  worker.view.log

def share (worker : Worker) : Share :=
  ⟨Tokens.ofDocs worker.given, Tokens.ofDocs worker.docs, worker.log⟩

theorem befores_share (workers : List Worker) :
    Share.befores (workers.map share) = Tokens.ofDocs (workers.flatMap given) := by
  rw [Share.befores, List.map_map, Tokens.ofDocs_flatMap]
  rfl

theorem afters_share (workers : List Worker) :
    Share.afters (workers.map share) = Tokens.ofDocs (workers.flatMap docs) := by
  rw [Share.afters, List.map_map, Tokens.ofDocs_flatMap]
  rfl

end Worker

/-- Workers that own documents between them and have taken their turns on a slice. -/
structure Crew (slice : Slice) (summary : Summary) (docs : List Document)
    (workers : List Worker) : Prop where
  shared : (workers.flatMap Worker.given).Perm docs
  turns : ∀ worker ∈ workers,
    Works slice summary.numTopics worker.given (Overlay.start slice summary) worker.docs worker.view

namespace Crew

variable {slice : Slice} {summary : Summary} {limit : Nat → Nat} {docs : List Document}
  {workers : List Worker}

theorem perm (crew : Crew slice summary docs workers) {order : List Worker}
    (reordered : order.Perm workers) : Crew slice summary docs order :=
  ⟨(reordered.flatMap_right _).trans crew.shared, fun worker member =>
    crew.turns worker (reordered.mem_iff.mp member)⟩

theorem befores (crew : Crew slice summary docs workers) :
    Share.befores (workers.map Worker.share) = Tokens.ofDocs docs := by
  rw [Worker.befores_share, Tokens.ofDocs_perm crew.shared]

/-- The tokens of the workers on both sides of one of them
are the others that its overlay does not follow. -/
theorem split {front back : List Worker} {worker : Worker}
    (crew : Crew slice summary docs (front ++ worker :: back)) :
    Tokens.ofDocs docs = Share.befores (front.map Worker.share) +
      (Tokens.ofDocs worker.given + Share.befores (back.map Worker.share)) := by
  rw [← crew.befores, Worker.befores_share, Worker.befores_share, Worker.befores_share,
    List.flatMap_append, List.flatMap_cons, Tokens.ofDocs_append, Tokens.ofDocs_append]

theorem turned (crew : Crew slice summary docs workers)
    (rows : slice.Tallies limit (Tokens.ofDocs docs)) :
    ∀ share ∈ workers.map Worker.share, share.Turned slice.words summary.numTopics := by
  intro share member
  obtain ⟨worker, inside, rfl⟩ := List.mem_map.mp member
  obtain ⟨front, back, rfl⟩ := List.append_of_mem inside
  rw [crew.split, add_left_comm] at rows
  exact ((crew.turns worker inside).follows rows).2

theorem logs (workers : List Worker) :
    (workers.map Worker.share).map Share.log = workers.map Worker.log := by
  rw [List.map_map]
  rfl

theorem safe {front back : List Worker} {worker : Worker}
    (crew : Crew slice summary docs (front ++ worker :: back))
    (counted : Counted slice summary limit (Tokens.ofDocs docs)) :
    ∃ slice' summary', Engine.mergeLogs (front.map Worker.log) (slice, summary) =
        .ok () (slice', summary') ∧
      MergesSafely limit slice' summary' worker.log := by
  have turned := crew.turned counted.rows
  rw [crew.split] at counted
  obtain ⟨slice', summary', merged, between, shape, size⟩ :=
    counted.mergeLogs (front.map Worker.share)
    (fun share member =>
      turned share (by rw [List.map_append]; exact List.mem_append_left _ member))
  rw [logs] at merged
  rw [add_left_comm] at between
  have own : worker.share.Turned slice'.words summary'.numTopics := by
    rw [shape.words, size]
    exact turned worker.share (by simp)
  have start : Counted slice' summary' limit (worker.share.before + _) := between
  exact ⟨slice', summary', merged, start.mergesSafely own⟩

/-- All logs together lead from the counts of the documents to those of the changed documents. -/
theorem merged (crew : Crew slice summary docs workers)
    (counted : Counted slice summary limit (Tokens.ofDocs docs)) :
    ∃ slice' summary', Engine.mergeLogs (workers.map Worker.log) (slice, summary) =
        .ok () (slice', summary') ∧
      Counted slice' summary' limit (Tokens.ofDocs (workers.flatMap Worker.docs)) ∧
      slice.SameShape slice' ∧
      summary'.numTopics = summary.numTopics := by
  have turned := crew.turned counted.rows
  rw [← crew.befores, ← add_zero (Share.befores _)] at counted
  obtain ⟨slice', summary', merged, after, shape, size⟩ := counted.mergeLogs _ turned
  rw [logs] at merged
  rw [add_zero, Worker.afters_share] at after
  exact ⟨slice', summary', merged, after, shape, size⟩

theorem foreign (crew : Crew slice summary docs workers)
    (rows : slice.Tallies limit (Tokens.ofDocs docs)) (token : Token)
    (missing : token.word ∉ slice.words) :
    (Tokens.ofDocs (workers.flatMap Worker.docs)).count token =
        (Tokens.ofDocs docs).count token := by
  rw [← crew.befores, ← Worker.afters_share, Share.count_afters (crew.turned rows) missing]

theorem sizes (crew : Crew slice summary docs workers)
    (rows : slice.Tallies limit (Tokens.ofDocs docs)) (word : Nat) :
    Tokens.ofWord (Tokens.ofDocs (workers.flatMap Worker.docs)) word =
        Tokens.ofWord (Tokens.ofDocs docs) word := by
  rw [← crew.befores, ← Worker.afters_share, Share.ofWord_afters (crew.turned rows)]

end Crew

/-- The documents of a run, shared out among workers that take their turns
on one slice: their logs are merged in any order without a fault, the counts
are safe at every moment, and they end as those of the changed documents. -/
theorem workers_merge {terms : List (Nat × Nat)} {numTopics loadFactor : Nat} {vocab : Vocabulary}
    (limits : Cells) (made : Vocabulary.ofFrequencies terms numTopics loadFactor = .ok vocab)
    (small : ∀ entry ∈ vocab.words, entry.frequency ≤ 2147483647)
    (room : ∀ entry ∈ vocab.words, ∀ capacity, entry.kind = .sparse capacity →
      2 * entry.frequency ≤ capacity)
    {store : Store} (reached : Store.Reachable (vocab.slice limits) store) {docs : List Document}
    (counts : ∀ word topic, store.count word topic = (Tokens.ofDocs docs).count ⟨word, topic⟩)
    (totals : ∀ topic, store.summary.get topic = Tokens.ofTopic (Tokens.ofDocs docs) topic)
    (frequencies : ∀ entry ∈ vocab.words, Tokens.ofWord (Tokens.ofDocs docs) entry.word ≤
      entry.frequency)
    {id : Nat} {slice : Slice} (here : store.slices[id]? = some slice) {workers : List Worker}
    (shared : (workers.flatMap Worker.given).Perm docs)
    (turns : ∀ worker ∈ workers,
      Works slice numTopics worker.given (Overlay.start slice store.summary)
        worker.docs worker.view)
    {order : List Worker} (reordered : order.Perm workers) :
    (∃ slice' summary', Engine.mergeLogs (order.map Worker.log) (slice, store.summary) =
        .ok () (slice', summary') ∧
      ∀ changed, changed.Perm (workers.flatMap Worker.docs) →
        ∃ counted, Store.ofDocuments (vocab.slice limits) changed = .ok counted ∧
          (∀ word topic,
            (⟨store.slices.setIfInBounds id slice', summary'⟩ : Store).count word topic =
              counted.count word topic) ∧
          ∀ topic, summary'.get topic = counted.summary.get topic) ∧
    ∀ front worker back, order = front ++ worker :: back →
      ∃ slice' summary', Engine.mergeLogs (front.map Worker.log) (slice, store.summary) =
        .ok () (slice', summary') ∧
        MergesSafely vocab.frequency slice' summary' worker.log := by
  have lawful := Vocabulary.lawful_of_frequencies made limits
  have spacious := Vocabulary.spacious_of_frequencies made limits small room
  have fits := reached.fits lawful
  obtain ⟨tallies, known⟩ := fits.tallies_of_counts lawful spacious counts totals frequencies
  have base := tallies.counted id slice here
  have size : store.summary.numTopics = numTopics := by
    rw [← Vocabulary.numTopics_of_frequencies made]
    exact fits.numTopics
  rw [← size] at turns
  have crew : Crew slice store.summary docs order := Crew.perm ⟨shared, turns⟩ reordered
  constructor
  · obtain ⟨slice', summary', merged, counted, shape, same⟩ := crew.merged base
    refine ⟨slice', summary', merged, ?_⟩
    intro changed permuted
    -- The order of the workers has no part in what their documents are in the end.
    have after : Tokens.ofDocs (order.flatMap Worker.docs) = Tokens.ofDocs changed :=
      Tokens.ofDocs_perm ((reordered.flatMap_right _).trans permuted.symm)
    have sizes := crew.sizes base.rows
    have foreign := crew.foreign base.rows
    rw [after] at counted sizes foreign
    have known' : ∀ token ∈ Tokens.ofDocs changed, ∃ entry ∈ vocab.words, entry.word =
        token.word := by
      intro token member
      have some : 0 < Tokens.ofWord (Tokens.ofDocs changed) token.word :=
        Multiset.countP_pos.mpr ⟨token, member, rfl⟩
      rw [sizes] at some
      obtain ⟨other, before, own⟩ := Multiset.countP_pos.mp some
      exact own ▸ known other before
    have below : ∀ token ∈ Tokens.ofDocs changed, token.topic < (vocab.slice limits).numTopics := by
      rw [← fits.numTopics, ← same]
      exact counted.topics
    obtain ⟨final, recounted, tallies'⟩ := Store.ofDocuments_ok lawful spacious changed known' below
      (fun entry member => by rw [sizes]; exact frequencies entry member)
    refine ⟨final, recounted, ?_, ?_⟩
    · intro word topic
      rw [(tallies.set lawful here counted shape same foreign).count_eq lawful known',
        tallies'.count_eq lawful known']
    · intro topic
      obtain ⟨entry, there, _⟩ := fits.entry here
      obtain ⟨own, place, _⟩ := tallies'.fits.slice there
      have countedFinal := tallies'.counted id own place
      rw [counted.totals.get_eq counted.topics, countedFinal.totals.get_eq countedFinal.topics]
  · rintro front worker back rfl
    exact crew.safe base

theorem workers_merge_lone :
    let slice : Slice := ⟨0, #[7], ⟨2, #[1, 1], #[], #[.dense 0]⟩⟩
    let summary : Summary := ⟨#[1, 1]⟩
    let first : Worker :=
      ⟨[⟨#[⟨7, 0⟩], 0⟩], [⟨#[⟨7, 1⟩], 0⟩], ⟨slice, summary, DeltaLog.empty.record ⟨7, 0, 1⟩⟩⟩
    let second : Worker :=
      ⟨[⟨#[⟨7, 1⟩], 0⟩], [⟨#[⟨7, 0⟩], 0⟩], ⟨slice, summary, DeltaLog.empty.record ⟨7, 1, 0⟩⟩⟩
    let vocab : Vocabulary := ⟨2, #[⟨7, 2, .dense, true⟩], #[⟨0, 7, 7, 0, 1⟩]⟩
    (∃ slice' summary', Engine.mergeLogs [second.log, first.log] (slice, summary) =
      .ok () (slice', summary') ∧ ∀ changed, changed.Perm (first.docs ++ second.docs) →
        ∃ counted, Store.ofDocuments (vocab.slice ⟨0, 0⟩) changed = .ok counted ∧
          (∀ word topic, (⟨#[slice'], summary'⟩ : Store).count word topic =
          counted.count word topic) ∧
          ∀ topic, summary'.get topic = counted.summary.get topic) ∧
    ∀ front worker back, [second, first] = front ++ worker :: back →
      ∃ slice' summary', Engine.mergeLogs (front.map Worker.log) (slice, summary) =
        .ok () (slice', summary') ∧
        MergesSafely vocab.frequency slice' summary' worker.log := by
  intro slice summary first second vocab
  let store : Store := ⟨#[slice], summary⟩
  have reached : Store.Reachable (vocab.slice ⟨0, 0⟩) store := Store.reachable_lone
  have lawful := Vocabulary.lawful_of_frequencies Vocabulary.ofFrequencies_lone ⟨0, 0⟩
  have spacious := Vocabulary.spacious_of_frequencies Vocabulary.ofFrequencies_lone ⟨0, 0⟩
    (by simp) (by simp)
  obtain ⟨tallies, described⟩ :=
    (reached.fits lawful).tallies_of_check lawful spacious (by decide +kernel)
  have here : store.slices[0]? = some slice := rfl
  have base := tallies.counted 0 slice here
  have tokens : (store.tokens : Multiset Token) = Tokens.ofDocs [⟨#[⟨7, 0⟩], 0⟩,
      ⟨#[⟨7, 1⟩], 0⟩] := by
    decide +kernel
  have counts := tallies.count_eq lawful described.known
  have totals := base.totals.get_eq base.topics
  rw [tokens] at counts totals
  have own : ∀ topic, (⟨7, topic⟩ : Token).word ∈ slice.words := by simp [slice]
  have only : ∀ token : Token, (#[token] : Array Token)[0]? = some token := fun token => rfl
  have turnFirst :
      Works slice 2 first.given (Overlay.start slice summary) first.docs first.view := by
    have document : first.given[0]? = some ⟨#[⟨7, 0⟩], 0⟩ := rfl
    have committed : Overlay.commit ⟨7, 0, 1⟩ (Overlay.start slice summary) = .ok () first.view :=
      Overlay.commit_start slice summary (by decide +kernel) (by decide +kernel)
    exact Works.rest.change 0 0 1 document (only ⟨7, 0⟩) (own 0) Nat.one_lt_two committed
  have turnSecond :
      Works slice 2 second.given (Overlay.start slice summary) second.docs second.view := by
    have document : second.given[0]? = some ⟨#[⟨7, 1⟩], 0⟩ := rfl
    have committed : Overlay.commit ⟨7, 1, 0⟩ (Overlay.start slice summary) = .ok () second.view :=
      Overlay.commit_start slice summary (by decide +kernel) (by decide +kernel)
    exact Works.rest.change 0 0 0 document (only ⟨7, 1⟩) (own 1) Nat.two_pos committed
  have turns : ∀ worker ∈ [first, second],
      Works slice 2 worker.given (Overlay.start slice summary) worker.docs worker.view := by
    intro worker member
    rcases List.mem_pair.mp member with rfl | rfl
    · exact turnFirst
    · exact turnSecond
  exact workers_merge ⟨0, 0⟩ Vocabulary.ofFrequencies_lone (by simp) (by simp) reached counts totals
    (by decide +kernel) here
    (List.Perm.refl _) turns (List.Perm.swap first second [])

end LatentTopics
