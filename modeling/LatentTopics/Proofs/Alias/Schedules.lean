import Mathlib
import LatentTopics.Proofs.Alias.Pouring
import LatentTopics.Proofs.Alias.Tables
import LatentTopics.Proofs.Row.Agreement

/-! Building the proposals of a slice in place. The plan gives every table the room that it needs,
and each part is filled with the table of its own word. So every schedule ends with the proposals
that are put together one table after another. -/
namespace LatentTopics

namespace Alias

theorem writeTopics?_eq (list : List Nat) {index : Nat} {topics : Array Nat}
    (size : index + list.length = topics.size) :
    writeTopics? list index topics = some (topics.toList.take index ++ list).toArray := by
  induction list generalizing index topics with
  | nil =>
      rw [List.length_nil, Nat.add_zero] at size
      rw [writeTopics?, List.append_nil, size, ← Array.length_toList, List.take_length,
        Array.toArray_toList]
  | cons topic list ih =>
      rw [List.length_cons] at size
      have inside : index < topics.size := by omega
      rw [writeTopics?, if_pos inside, ih (by rw [Array.size_setIfInBounds]; omega),
        Array.toList_setIfInBounds,
        List.take_succ_eq_append_getElem
        (by rw [List.length_set, Array.length_toList]; exact inside),
        List.take_set_of_le (Nat.le_refl index), List.getElem_set_self, List.append_assoc,
        List.singleton_append]

theorem carve?_eq {α : Type} (sizes : List Nat) (values : List α)
    (size : sizes.foldr (· + ·) 0 = values.length) :
    ∃ pieces, carve? sizes values = some (pieces, []) ∧ pieces.map List.length = sizes := by
  induction sizes generalizing values with
  | nil =>
      rw [List.foldr_nil] at size
      refine ⟨[], ?_, rfl⟩
      rw [carve?, List.eq_nil_of_length_eq_zero size.symm]
  | cons first sizes ih =>
      rw [List.foldr_cons] at size
      obtain ⟨pieces, carved, lengths⟩ := ih (values.drop first) (by rw [List.length_drop]; omega)
      refine ⟨values.take first :: pieces, ?_, ?_⟩
      · rw [carve?, if_neg (by omega), carved]
      · rw [List.map_cons, lengths, List.length_take, Nat.min_eq_left (by omega)]

end Alias

namespace AliasPart

variable {summary : Summary} {beta betaSum : Float}

structure Fits (table : AliasTable) (topics : List Nat) (dense : Bool)
    (part : AliasPart) : Prop where
  dense : part.row.dense = dense
  buckets : part.buckets.size = table.buckets.size
  topics : part.topics.size = topics.length

/-- What a part holds when the table of its word is written. -/
def holding (part : AliasPart) (table : AliasTable) (topics : List Nat) : AliasPart :=
  ⟨{ part.row with mass := table.mass }, table.buckets, topics.toArray⟩

theorem fill?_eq {dense : Bool} {row : Row} {part : AliasPart}
    (fits : part.Fits (AliasSlice.tableOf dense row summary beta betaSum).1
      (AliasSlice.tableOf dense row summary beta betaSum).2 dense) (scratch : Alias.Scratch) :
    ∃ after, part.fill? summary beta betaSum row scratch =
      some (part.holding (AliasSlice.tableOf dense row summary beta betaSum).1
        (AliasSlice.tableOf dense row summary beta betaSum).2, after) := by
  obtain ⟨⟨offset, width, topicOffset, own, mass⟩, room, entries⟩ := part
  obtain ⟨same, buckets, topics⟩ := fits
  obtain rfl : own = dense := same
  cases own with
  | true =>
      simp only [AliasSlice.tableOf, if_true] at buckets topics ⊢
      have size : room.size = (AliasSlice.denseWeights row summary beta betaSum).length := by
        rw [buckets, (AliasTable.ofWeights_closed _).1]
      obtain ⟨after, filled, weights⟩ := @Alias.fillInPlace?_eq room
        { scratch with weights := AliasSlice.denseWeights row summary beta betaSum } size
      refine ⟨after, ?_⟩
      simp only [fill?, if_true, filled, weights]
      rw [holding, AliasTable.ofWeights_mass, Array.eq_empty_of_size_eq_zero topics]
  | false =>
      simp only [AliasSlice.tableOf, Bool.false_eq_true, if_false] at buckets topics ⊢
      have size : room.size = (AliasSlice.sparseWeights row.pairs summary betaSum).length := by
        rw [buckets, (AliasTable.ofWeights_closed _).1]
      obtain ⟨after, filled, weights⟩ := @Alias.fillInPlace?_eq room
        { scratch with weights := AliasSlice.sparseWeights row.pairs summary betaSum } size
      have written := Alias.writeTopics?_eq (row.pairs.map Prod.fst)
        ((Nat.zero_add _).trans topics.symm)
      rw [List.take_zero, List.nil_append] at written
      refine ⟨after, ?_⟩
      simp only [fill?, Bool.false_eq_true, if_false, written, Option.map_some, filled, weights]
      rw [holding, AliasTable.ofWeights_mass]

end AliasPart

namespace AliasSlice

/-- A part that has room for the table of its word, whatever
it holds, and the part with the table. -/
structure Fillable (rows : Array Row) (summary : Summary) (beta betaSum : Float)
    (before after : Array AliasPart) : Prop where
  size : before.size = rows.size
  target : after.size = rows.size
  fills : ∀ (index : Nat) (row : Row) (part : AliasPart), rows[index]? = some row →
    before[index]? = some part →
    ∀ scratch, ∃ filled left, part.fill? summary beta betaSum row scratch = some (filled, left) ∧
      after[index]? = some filled

variable {rows : Array Row} {summary : Summary} {beta betaSum : Float}
  {before after : Array AliasPart}

/-- Whatever the order is, and whichever workers fill the
parts, each part holds its table once it had its turn. -/
theorem Fillable.workAll? (fillable : Fillable rows summary beta betaSum before after)
    (schedule : List (Nat × Nat)) (once : (schedule.map Prod.snd).Nodup)
    (inside : ∀ index ∈ schedule.map Prod.snd, index < rows.size) (site : Site)
    (parts : ∀ index, site.parts[index]? =
      if index ∈ schedule.map Prod.snd then before[index]? else after[index]?) :
    ∃ scratches, site.workAll? rows summary beta betaSum schedule = some ⟨after, scratches⟩ := by
  induction schedule generalizing site with
  | nil =>
      obtain ⟨current, scratches⟩ := site
      refine ⟨scratches, ?_⟩
      rw [Site.workAll?]
      have same : current = after := Array.ext_getElem? fun index => by simpa using parts index
      rw [same]
  | cons turn schedule ih =>
      obtain ⟨worker, index⟩ := turn
      rw [List.map_cons] at once inside parts
      obtain ⟨fresh, once⟩ := List.nodup_cons.mp once
      have below : index < rows.size := inside index List.mem_cons_self
      have row := Array.getElem?_eq_getElem below
      have place : index < before.size := fillable.size ▸ below
      have old := Array.getElem?_eq_getElem place
      have part := parts index
      rw [if_pos List.mem_cons_self, old] at part
      obtain ⟨filled, left, done, target⟩ :=
        fillable.fills index _ _ row old (site.scratches worker)
      let next : Site := ⟨site.parts.setIfInBounds index filled,
        fun other => if other = worker then left else site.scratches other⟩
      have worked : site.work? rows summary beta betaSum worker index = some next := by
        simp only [Site.work?, row, part, done, next]
      rw [Site.workAll?, worked]
      apply ih once (fun other member => inside other (List.mem_cons_of_mem index member))
      intro other
      by_cases own : index = other
      · subst own
        rw [if_neg fresh, target]
        exact Array.getElem?_setIfInBounds_self_of_lt (Array.getElem?_eq_some_iff.mp part).1
      · have kept : next.parts[other]? = site.parts[other]? := Array.getElem?_setIfInBounds_ne own
        rw [kept, parts other]
        simp only [List.mem_cons, Ne.symm own, false_or]

section Plan

variable {numTopics : Nat} {tables : List (Bool × Row)}

/-- The plan knows how large the tables become: a row has as many topics as it says, and a bucket
for every topic is one for each total. -/
structure Foreseen (numTopics : Nat) (summary : Summary) (tables : List (Bool × Row)) : Prop where
  dense : ∀ row, (true, row) ∈ tables → numTopics = summary.numTopics
  sparse : ∀ row, (false, row) ∈ tables → row.nonzeroCount = row.pairs.length

theorem tableOf_sizes (dense : Bool) (row : Row) (summary : Summary) (beta betaSum : Float) :
    (tableOf dense row summary beta betaSum).1.buckets.size =
        (if dense then summary.numTopics else row.pairs.length) ∧
      (tableOf dense row summary beta betaSum).2.length =
        if dense then 0 else row.pairs.length := by
  cases dense with
  | true =>
      simp only [tableOf, if_true]
      rw [(AliasTable.ofWeights_closed _).1, denseWeights, List.length_map, List.length_range]
      exact ⟨rfl, rfl⟩
  | false =>
      simp only [tableOf, Bool.false_eq_true, if_false]
      rw [(AliasTable.ofWeights_closed _).1, sparseWeights, List.length_map, List.length_map]
      exact ⟨rfl, rfl⟩

theorem ofTable_sizes (dense : Bool) (row : Row) (offset topicOffset : Nat) :
    (AliasPart.ofTable summary beta betaSum dense row offset topicOffset).buckets.size =
        (AliasPart.ofTable summary beta betaSum dense row offset topicOffset).row.size ∧
      (AliasPart.ofTable summary beta betaSum dense row offset topicOffset).topics.size =
        (AliasPart.ofTable summary beta betaSum dense row offset topicOffset).row.topicSize := by
  obtain ⟨buckets, topics⟩ := tableOf_sizes dense row summary beta betaSum
  refine ⟨rfl, ?_⟩
  simp only [AliasPart.ofTable, AliasRow.topicSize, List.size_toArray, topics, buckets]
  cases dense <;> rfl

theorem plan_eq (foreseen : Foreseen numTopics summary tables) (offset topicOffset : Nat) :
    plan numTopics tables offset topicOffset =
      (AliasPart.ofTables summary beta betaSum tables offset topicOffset).map fun part =>
        { part.row with mass := 0.0 } := by
  induction tables generalizing offset topicOffset with
  | nil => rfl
  | cons entry tables ih =>
      obtain ⟨dense, row⟩ := entry
      obtain ⟨buckets, topics⟩ := tableOf_sizes dense row summary beta betaSum
      have rest : Foreseen numTopics summary tables :=
        ⟨fun row member => foreseen.dense row (List.mem_cons_of_mem _ member),
          fun row member => foreseen.sparse row (List.mem_cons_of_mem _ member)⟩
      have size : (if dense then numTopics else row.nonzeroCount) =
          (tableOf dense row summary beta betaSum).1.buckets.size := by
        rw [buckets]
        cases dense with
        | true => exact foreseen.dense row List.mem_cons_self
        | false => exact foreseen.sparse row List.mem_cons_self
      obtain ⟨_, topicSize⟩ := @ofTable_sizes summary beta betaSum dense row offset topicOffset
      rw [plan, AliasPart.ofTables, List.map_cons, topicSize]
      simp only [size]
      rw [ih rest]
      rfl

theorem fills_planned (dense : Bool) (row : Row) (offset topicOffset : Nat)
    {buckets : Array Alias.Bucket} {topics : Array Nat}
    (size : buckets.size =
      (AliasPart.ofTable summary beta betaSum dense row offset topicOffset).row.size)
    (topicSize : topics.size =
      (AliasPart.ofTable summary beta betaSum dense row offset topicOffset).row.topicSize)
    (scratch : Alias.Scratch) :
    ∃ left, AliasPart.fill? summary beta betaSum row scratch
      ⟨{ (AliasPart.ofTable summary beta betaSum dense row offset topicOffset).row with
          mass := 0.0 }, buckets, topics⟩ =
        some (AliasPart.ofTable summary beta betaSum dense row offset topicOffset, left) := by
  have topicsOwn := (@ofTable_sizes summary beta betaSum dense row offset topicOffset).2
  refine AliasPart.fill?_eq ⟨rfl, size, ?_⟩ scratch
  dsimp only
  rw [topicSize, ← topicsOwn]
  exact List.size_toArray

theorem fillable_of_plan (foreseen : Foreseen numTopics summary tables)
    {buckets : List (List Alias.Bucket)} {topics : List (List Nat)}
    (sizes : buckets.map List.length = (plan numTopics tables 0 0).map AliasRow.size)
    (topicSizes : topics.map List.length = (plan numTopics tables 0 0).map AliasRow.topicSize) :
    Fillable (tables.map Prod.snd).toArray summary beta betaSum
      (((plan numTopics tables 0 0).zip (buckets.zip topics)).map fun (row, buckets, topics) =>
        (⟨row, buckets.toArray, topics.toArray⟩ : AliasPart)).toArray
      (AliasPart.ofTables summary beta betaSum tables 0 0).toArray := by
  have planned := @plan_eq summary beta betaSum numTopics tables foreseen 0 0
  have length : (plan numTopics tables 0 0).length = tables.length := by
    rw [planned, List.length_map, AliasPart.ofTables_length]
  have lengthBuckets := congrArg List.length sizes
  have lengthTopics := congrArg List.length topicSizes
  rw [List.length_map, List.length_map, length] at lengthBuckets lengthTopics
  refine ⟨?_, ?_, ?_⟩
  · rw [List.size_toArray, List.size_toArray, List.length_map, List.length_map, List.length_zip,
      List.length_zip, length, lengthBuckets, lengthTopics, Nat.min_self, Nat.min_self]
  · rw [List.size_toArray, List.size_toArray, List.length_map, AliasPart.ofTables_length]
  · intro index row part own here scratch
    rw [List.getElem?_toArray, List.getElem?_map, Option.map_eq_some_iff] at own here
    obtain ⟨⟨dense, row⟩, table, rfl⟩ := own
    obtain ⟨⟨made, piece, entries⟩, zipped, rfl⟩ := here
    obtain ⟨isPlanned, pieces⟩ := List.getElem?_zip_eq_some.mp zipped
    obtain ⟨isPiece, areEntries⟩ := List.getElem?_zip_eq_some.mp pieces
    obtain ⟨offset, topicOffset, there⟩ :=
      AliasPart.getElem?_ofTables summary beta betaSum 0 0 table
    have size := congrArg (·[index]?) sizes
    have topicSize := congrArg (·[index]?) topicSizes
    simp only [List.getElem?_map, isPlanned, isPiece, areEntries, Option.map_some,
      Option.some.injEq] at size topicSize
    rw [planned, List.getElem?_map, there, Option.map_some] at isPlanned
    obtain rfl := Option.some.inj isPlanned
    obtain ⟨left, filled⟩ :=
      fills_planned dense row offset topicOffset (List.size_toArray.trans size)
      (List.size_toArray.trans topicSize) scratch
    exact ⟨_, left, filled, by rw [List.getElem?_toArray, there]⟩

end Plan

/-- Proposals that are built in place, by whatever schedule and with whatever is left in the
buffers, are those that are put together one table after another. -/
theorem buildInPlace?_eq {vocab : Vocabulary} {run : SliceMeta} {slice : Slice} {summary : Summary}
    (foreseen : Foreseen slice.numTopics summary (tables vocab run slice))
    {schedule : List (Nat × Nat)}
    (order : (schedule.map Prod.snd).Perm (List.range (tables vocab run slice).length))
    (scratches : Nat → Alias.Scratch) (beta betaSum : Float) :
    buildInPlace? schedule scratches vocab run slice summary beta betaSum =
      some (build vocab run slice summary beta betaSum) := by
  obtain ⟨buckets, carved, sizes⟩ :=
    Alias.carve?_eq ((plan slice.numTopics (tables vocab run slice) 0 0).map AliasRow.size)
    (List.replicate _ (default : Alias.Bucket)) (List.length_replicate).symm
  obtain ⟨topics, carvedTopics, topicSizes⟩ := Alias.carve?_eq
    ((plan slice.numTopics (tables vocab run slice) 0 0).map AliasRow.topicSize)
      (List.replicate _ 0)
    (List.length_replicate).symm
  have fillable := @fillable_of_plan summary beta betaSum _ _ foreseen buckets topics
    sizes topicSizes
  obtain ⟨left, worked⟩ := fillable.workAll? schedule (order.nodup_iff.mpr List.nodup_range)
    (fun index member => by
      have inside := List.mem_range.mp (order.mem_iff.mp member)
      rwa [List.size_toArray, List.length_map])
    ⟨_, scratches⟩ (fun index => by
      by_cases member : index ∈ schedule.map Prod.snd
      · rw [if_pos member]
      · have outside : (tables vocab run slice).length ≤ index := by
          rw [order.mem_iff, List.mem_range] at member
          exact Nat.le_of_not_lt member
        rw [if_neg member, Array.getElem?_eq_none, Array.getElem?_eq_none]
        · rw [fillable.target, List.size_toArray, List.length_map]
          exact outside
        · rw [fillable.size, List.size_toArray, List.length_map]
          exact outside)
  -- What the parts make up is what is put together.
  obtain ⟨rows, bucketsAfter, topicsAfter⟩ := build_eq vocab run slice summary beta betaSum
  have sameRows : (parts vocab run slice summary beta betaSum).toArray.map AliasPart.row =
      (build vocab run slice summary beta betaSum).rows := by
    rw [← Array.toList_inj, Array.toList_map, rows]
  have sameBuckets :
      ((parts vocab run slice summary beta betaSum).toArray.map AliasPart.buckets).flatten =
      (build vocab run slice summary beta betaSum).buckets := by
    rw [← Array.toList_inj, Array.toList_flatten, Array.toList_map, List.map_map, bucketsAfter]
    rfl
  have sameTopics :
      ((parts vocab run slice summary beta betaSum).toArray.map AliasPart.topics).flatten =
      (build vocab run slice summary beta betaSum).topics := by
    rw [← Array.toList_inj, Array.toList_flatten, Array.toList_map, List.map_map, topicsAfter]
    rfl
  rw [parts] at sameRows sameBuckets sameTopics
  simp only [buildInPlace?, carved, carvedTopics, worked, sameRows, sameBuckets, sameTopics,
    Array.appendList_nil]
  rfl

def ownWeights (slice : Slice) (summary : Summary) (beta betaSum : Float) (word : Nat)
    (dense : Bool) (topics : List Nat) : List Float :=
  if dense then
    (List.range summary.numTopics).map fun topic =>
      (floatOfInt (slice.count word topic) + beta) / (floatOfInt (summary.get topic) + betaSum)
  else topics.map fun topic =>
    floatOfInt (slice.count word topic) / (floatOfInt (summary.get topic) + betaSum)

/-- A row of proposals whose ranges hold what is built for its word alone. -/
structure Stands (slice : Slice) (summary : Summary) (beta betaSum : Float) (proposals : AliasSlice)
    (word : Nat) (dense : Bool) (topics : List Nat) (row : AliasRow) : Prop where
  kind : row.dense = dense
  once : topics.Nodup
  live : ∀ topic, topic ∈ topics ↔ slice.count word topic ≠ 0
  size : row.size = if dense then summary.numTopics else topics.length
  mass :
    row.mass = (AliasTable.ofWeights (ownWeights slice summary beta betaSum word dense topics)).mass
  buckets : proposals.buckets.extract row.offset (row.offset + row.size) =
    (AliasTable.ofWeights (ownWeights slice summary beta betaSum word dense topics)).buckets
  listed : dense = false → proposals.topics.extract row.topicOffset (row.topicOffset + row.size) =
    topics.toArray

/-- Proposals that consist of one table for each word of a slice, side by side. -/
structure Consists (vocab : Vocabulary) (run : SliceMeta) (slice : Slice) (summary : Summary)
    (beta betaSum : Float) (proposals : AliasSlice) : Prop where
  words : proposals.words = slice.words
  size : proposals.rows.size = slice.size
  rows : ∀ (index word : Nat), slice.words[index]? = some word → ∃ entry counts row,
    (vocab.sliceWords run)[index]? = some entry ∧ entry.word = word ∧
      slice.rows[index]? = some (word, counts) ∧
      proposals.rows[index]? = some row ∧
      Stands slice summary beta betaSum proposals word entry.aliasDense
        (counts.pairs.map Prod.fst) row
  buckets : Tiles (proposals.rows.toList.map fun row => (row.offset, row.size))
    proposals.buckets.size
  topics : Tiles (proposals.rows.toList.map fun row => (row.topicOffset, row.topicSize))
    proposals.topics.size

variable {vocab : Vocabulary} {run : SliceMeta} {slice : Slice}

theorem length_tables (valid : slice.Valid)
    (shape : (Slice.ofVocabulary vocab run).SameShape slice) :
    (tables vocab run slice).length = slice.size := by
  rw [tables, List.length_zip, List.length_map, List.length_map, valid.length_rows shape,
    Nat.min_self, Slice.size, shape.words, Slice.ofVocabulary, List.size_toArray, List.length_map]

theorem tableOf_eq {counts : Row} {word : Nat} (sound : counts.Sound)
    (same : ∀ topic, counts.get topic = slice.count word topic) (dense : Bool) (summary : Summary)
    (beta betaSum : Float) :
    tableOf dense counts summary beta betaSum =
      (AliasTable.ofWeights (ownWeights slice summary beta betaSum word dense
        (counts.pairs.map Prod.fst)), if dense then [] else counts.pairs.map Prod.fst) := by
  cases dense with
  | true => simp only [tableOf, ownWeights, denseWeights, if_true, same]
  | false =>
      have weights : sparseWeights counts.pairs summary betaSum =
          (counts.pairs.map Prod.fst).map fun topic =>
          floatOfInt (slice.count word topic) / (floatOfInt (summary.get topic) + betaSum) := by
        rw [sparseWeights, List.map_map]
        apply List.map_congr_left
        rintro ⟨topic, count⟩ member
        have read := ((Row.mem_pairs sound topic count).mp member).2
        rw [same] at read
        simp only [Function.comp_apply, read]
      simp only [tableOf, ownWeights, Bool.false_eq_true, if_false, weights]

theorem parts_sizes {part : AliasPart}
    (member : part ∈ parts vocab run slice summary beta betaSum) :
    part.buckets.size = part.row.size ∧ part.topics.size = part.row.topicSize := by
  obtain ⟨index, here⟩ := List.getElem?_of_mem member
  have inside : index < (tables vocab run slice).length := by
    rw [← AliasPart.ofTables_length]
    exact (List.getElem?_eq_some_iff.mp here).1
  obtain ⟨offset, topicOffset, there⟩ := AliasPart.getElem?_ofTables summary beta betaSum 0 0
    (List.getElem?_eq_getElem inside)
  rw [parts, there] at here
  obtain rfl := Option.some.inj here
  exact ofTable_sizes _ _ offset topicOffset

theorem build_tiles (vocab : Vocabulary) (run : SliceMeta) (slice : Slice) (summary : Summary)
    (beta betaSum : Float) :
    Tiles ((build vocab run slice summary beta betaSum).rows.toList.map fun row =>
        (row.offset, row.size))
        (build vocab run slice summary beta betaSum).buckets.size ∧
      Tiles ((build vocab run slice summary beta betaSum).rows.toList.map fun row =>
        (row.topicOffset, row.topicSize))
        (build vocab run slice summary beta betaSum).topics.size := by
  obtain ⟨rows, buckets, topics⟩ := build_eq vocab run slice summary beta betaSum
  obtain ⟨bucketRanges, topicRanges⟩ :=
    AliasPart.ofTables_ranges summary beta betaSum (tables vocab run slice) 0 0
  have bucketSizes : (parts vocab run slice summary beta betaSum).map (fun part =>
      (part.row.offset, part.row.size)) =
      (parts vocab run slice summary beta betaSum).map fun part =>
        (part.row.offset, part.buckets.size) :=
    List.map_congr_left fun part member => by rw [(parts_sizes member).1]
  have topicSizes : (parts vocab run slice summary beta betaSum).map (fun part =>
      (part.row.topicOffset, part.row.topicSize)) =
      (parts vocab run slice summary beta betaSum).map fun part =>
        (part.row.topicOffset, part.topics.size) :=
    List.map_congr_left fun part member => by rw [(parts_sizes member).2]
  rw [rows, List.map_map, List.map_map]
  exact ⟨bucketSizes ▸ Tiles.of_parts bucketRanges buckets,
    topicSizes ▸ Tiles.of_parts topicRanges topics⟩

theorem build_consists (valid : slice.Valid)
    (shape : (Slice.ofVocabulary vocab run).SameShape slice) (summary : Summary)
    (beta betaSum : Float) :
    Consists vocab run slice summary beta betaSum (build vocab run slice summary beta betaSum) := by
  obtain ⟨rows, _, _⟩ := build_eq vocab run slice summary beta betaSum
  obtain ⟨bucketTiles, topicTiles⟩ := build_tiles vocab run slice summary beta betaSum
  refine ⟨rfl, ?_, ?_, bucketTiles, topicTiles⟩
  · rw [← Array.length_toList, rows, List.length_map, parts, AliasPart.ofTables_length,
      length_tables valid shape]
  · intro index word here
    obtain ⟨entry, counts, seated, own, place, table⟩ := exists_table valid shape here
    obtain ⟨_, sound, same⟩ := Store.mem_slice_rows valid (List.mem_of_getElem? place)
    obtain ⟨row, there, dense, carries⟩ := build_carries table summary beta betaSum
    obtain ⟨sizes, _⟩ := tableOf_sizes entry.aliasDense counts summary beta betaSum
    have size := carries.size.trans sizes
    rw [tableOf_eq sound same] at carries
    refine ⟨entry, counts, row, seated, own, place, there, dense, Row.pairs_topics_nodup sound, ?_,
      ?_, carries.mass, carries.buckets, ?_⟩
    · intro topic
      rw [List.mem_map, ← same]
      constructor
      · rintro ⟨⟨_, count⟩, member, rfl⟩
        obtain ⟨nonzero, read⟩ := (Row.mem_pairs sound _ count).mp member
        exact read ▸ nonzero
      · intro present
        exact ⟨(topic, counts.get topic), (Row.mem_pairs sound topic _).mpr ⟨present, rfl⟩, rfl⟩
    · rw [size, List.length_map]
    · intro sparse
      have listed := carries.topics
      rw [sparse] at size listed
      simp only [Bool.false_eq_true, if_false, List.length_map] at size listed
      rw [size]
      exact listed

/-- Whatever the schedule is, and whatever the workers' buffers hold,
building in place gives each word the table that is built from its own
counts alone, and the tables of the words share out the arrays. -/
theorem consists_by_any_schedule {terms : List (Nat × Nat)} {numTopics loadFactor : Nat}
    {vocab : Vocabulary} (made : Vocabulary.ofFrequencies terms numTopics loadFactor = .ok vocab)
    (limits : Cells) {store : Store} (reached : Store.Reachable (vocab.slice limits) store)
    {id : Nat} {run : SliceMeta} {slice : Slice}
    (there : (vocab.slice limits).slices[id]? = some run) (here : store.slices[id]? = some slice)
    {summary : Summary} (size : summary.numTopics = numTopics) (beta betaSum : Float)
    {schedule : List (Nat × Nat)} (order : (schedule.map Prod.snd).Perm (List.range slice.size))
    (scratches : Nat → Alias.Scratch) :
    ∃ proposals, buildInPlace? schedule scratches (vocab.slice limits) run slice summary beta
        betaSum = some proposals ∧
      proposals = build (vocab.slice limits) run slice summary beta betaSum ∧
      Consists (vocab.slice limits) run slice summary beta betaSum proposals := by
  have lawful := Vocabulary.lawful_of_frequencies made limits
  have fits := reached.fits lawful
  obtain ⟨valid, shape⟩ := fits.shapes id slice run here there
  have topics : slice.numTopics = summary.numTopics := by
    rw [fits.slice_numTopics lawful here, fits.numTopics, size,
      ← Vocabulary.numTopics_of_frequencies made]
    rfl
  have foreseen : Foreseen slice.numTopics summary (tables (vocab.slice limits) run slice) := by
    refine ⟨fun _ _ => topics, ?_⟩
    intro row member
    obtain ⟨⟨word, _⟩, inside, rfl⟩ := List.mem_map.mp (List.of_mem_zip member).2
    exact Row.nonzeroCount_eq_length (Store.mem_slice_rows valid inside).2.1
  rw [← length_tables valid shape] at order
  exact ⟨_, buildInPlace?_eq foreseen order scratches beta betaSum, rfl,
    build_consists valid shape summary beta betaSum⟩

/-- Two words whose tables differ in kind, the second one
built first, by workers whose buffers are not empty. -/
theorem consists_by_any_schedule_mixed :
    let vocab := Vocabulary.slice ⟨0, 0⟩ ⟨12, #[⟨3, 8, .dense, true⟩, ⟨9, 1, .sparse 2, false⟩],
        #[⟨0, 3, 9, 0, 2⟩]⟩
    let run : SliceMeta := ⟨0, 3, 9, 0, 2⟩
    let slice := Update.left (Slice.add 9 5 1) (Slice.ofVocabulary vocab run)
    ([(0, 1), (4, 0)].map Prod.snd).Perm (List.range slice.size) ∧
      ∃ proposals, buildInPlace? [(0, 1), (4, 0)] (fun worker => ⟨[0.5], #[7], [worker], [9, 3]⟩)
        vocab run slice (Summary.zero 12) 0.5 1.0 = some proposals ∧
        proposals = build vocab run slice (Summary.zero 12) 0.5 1.0 ∧
        Consists vocab run slice (Summary.zero 12) 0.5 1.0 proposals := by
  intro vocab run slice
  obtain ⟨there, _, _, size, store, reached, here⟩ := Store.exists_mixed
  have order : ([(0, 1), (4, 0)].map Prod.snd).Perm (List.range slice.size) := by
    rw [size]
    decide
  exact ⟨order, consists_by_any_schedule Vocabulary.ofFrequencies_mixed ⟨0, 0⟩ reached there here
    (show (Summary.zero 12).numTopics = 12 by decide) 0.5 1.0 order fun worker =>
    ⟨[0.5], #[7], [worker], [9, 3]⟩⟩

end AliasSlice

end LatentTopics
