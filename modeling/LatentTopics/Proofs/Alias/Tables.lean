import Mathlib
import LatentTopics.Alias.Arenas
import LatentTopics.Proofs.Alias.Proposals
import LatentTopics.Proofs.Counts.Confined

/-! The tables of a slice, one behind another. Each word has its own table, built from its own row
alone, and the arrays are these tables put together: the range of a word holds its table and nothing
else, and the ranges leave no gap. -/
namespace LatentTopics

def InRange (range : Nat × Nat) (position : Nat) : Prop :=
  range.1 ≤ position ∧ position < range.1 + range.2

/-- Ranges that have the positions up to a total, each of them once. -/
structure Tiles (ranges : List (Nat × Nat)) (total : Nat) : Prop where
  within : ∀ range ∈ ranges, range.1 + range.2 ≤ total
  covers : ∀ position < total, ∃! index : Nat, ∃ range, ranges[index]? = some range ∧
    InRange range position

namespace Tiles

def ofSizes : List Nat → Nat → List (Nat × Nat)
  | [], _ => []
  | size :: sizes, start => (start, size) :: ofSizes sizes (start + size)

theorem ofSizes_bounds {sizes : List Nat} {start : Nat} {range : Nat × Nat}
    (member : range ∈ ofSizes sizes start) :
    start ≤ range.1 ∧ range.1 + range.2 ≤ start + sizes.sum := by
  induction sizes generalizing start with
  | nil => exact absurd member List.not_mem_nil
  | cons size sizes ih =>
      rw [List.sum_cons]
      rcases List.mem_cons.mp member with rfl | later
      · exact ⟨Nat.le_refl _, by dsimp only; omega⟩
      · obtain ⟨least, most⟩ := ih later
        exact ⟨by omega, by omega⟩

theorem existsUnique_ofSizes (sizes : List Nat) {start position : Nat} (least : start ≤ position)
    (most : position < start + sizes.sum) :
    ∃! index : Nat, ∃ range, (ofSizes sizes start)[index]? = some range ∧
      InRange range position := by
  induction sizes generalizing start with
  | nil => exact absurd most (by rw [List.sum_nil]; omega)
  | cons size sizes ih =>
      rw [List.sum_cons] at most
      by_cases first : position < start + size
      · refine ⟨0, ⟨(start, size), rfl, least, first⟩, ?_⟩
        rintro (_ | index) ⟨range, here, after, _⟩
        · rfl
        -- The other ranges begin behind the first one.
        · have later : (ofSizes sizes (start + size))[index]? = some range := here
          have behind := (ofSizes_bounds (List.mem_of_getElem? later)).1
          omega
      · obtain ⟨index, ⟨range, here, inside⟩, alone⟩ := ih (Nat.le_of_not_lt first) (by omega)
        refine ⟨index + 1, ⟨range, here, inside⟩, ?_⟩
        rintro (_ | other) ⟨range, there, after, before⟩
        · obtain rfl := Option.some.inj there
          exact absurd before first
        · exact congrArg (· + 1) (alone other ⟨range, there, after, before⟩)

theorem of_sizes (sizes : List Nat) : Tiles (ofSizes sizes 0) sizes.sum := by
  constructor
  · intro range member
    have most := (ofSizes_bounds member).2
    rwa [Nat.zero_add] at most
  · intro position below
    exact existsUnique_ofSizes sizes (Nat.zero_le position) (by rwa [Nat.zero_add])

theorem take_drop_flatten {α : Type} {pieces : List (List α)} (front : List α) {index : Nat}
    {piece : List α} (here : pieces[index]? = some piece) :
    ∃ start, (ofSizes (pieces.map List.length) front.length)[index]? =
      some (start, piece.length) ∧
      ((front ++ pieces.flatten).drop start).take piece.length = piece := by
  induction pieces generalizing front index with
  | nil => exact absurd here (by simp)
  | cons first pieces ih =>
      cases index with
      | zero =>
          obtain rfl := Option.some.inj here
          refine ⟨front.length, rfl, ?_⟩
          rw [List.drop_left, List.flatten_cons, List.take_left]
      | succ index =>
          obtain ⟨start, range, found⟩ := ih (front ++ first) here
          rw [List.length_append] at range
          rw [List.append_assoc, ← List.flatten_cons] at found
          exact ⟨start, range, found⟩

section Parts

variable {α β : Type} {parts : List β} {startOf : β → Nat} {pieceOf : β → Array α} {whole : Array α}

theorem of_parts
    (ranges : parts.map (fun part => (startOf part, (pieceOf part).size)) =
      ofSizes (parts.map fun part => (pieceOf part).size) 0)
    (made : whole.toList = (parts.map fun part => (pieceOf part).toList).flatten) :
    Tiles (parts.map fun part => (startOf part, (pieceOf part).size)) whole.size := by
  have total : whole.size = (parts.map fun part => (pieceOf part).size).sum := by
    rw [← Array.length_toList, made, List.length_flatten, List.map_map]
    rfl
  rw [ranges, total]
  exact of_sizes _

theorem extract_eq
    (ranges : parts.map (fun part => (startOf part, (pieceOf part).size)) =
      ofSizes (parts.map fun part => (pieceOf part).size) 0)
    (made : whole.toList = (parts.map fun part => (pieceOf part).toList).flatten)
    {index : Nat} {part : β} (here : parts[index]? = some part) :
    whole.extract (startOf part) (startOf part + (pieceOf part).size) = pieceOf part := by
  have piece : (parts.map fun part => (pieceOf part).toList)[index]? =
      some (pieceOf part).toList := by
    rw [List.getElem?_map, here, Option.map_some]
  obtain ⟨start, range, found⟩ := take_drop_flatten [] piece
  have sizes : (parts.map fun part => (pieceOf part).toList).map List.length = parts.map fun part =>
      (pieceOf part).size := by
    rw [List.map_map]
    rfl
  -- The piece stands where its part says.
  rw [List.length_nil, sizes, ← ranges, List.getElem?_map, here, Option.map_some] at range
  obtain ⟨rfl, _⟩ := Prod.mk.inj (Option.some.inj range)
  rw [List.nil_append, ← made, Array.length_toList] at found
  apply Array.toList_inj.mp
  rw [Array.toList_extract, List.extract_eq_take_drop, Nat.add_sub_cancel_left, found]

end Parts

end Tiles

namespace AliasPart

def ofTable (summary : Summary) (beta betaSum : Float) (dense : Bool) (row : Row)
    (offset topicOffset : Nat) : AliasPart :=
  let (table, topics) := AliasSlice.tableOf dense row summary beta betaSum
  ⟨⟨offset, table.buckets.size, topicOffset, dense, table.mass⟩, table.buckets, topics.toArray⟩

def ofTables (summary : Summary) (beta betaSum : Float) :
    List (Bool × Row) → Nat → Nat → List AliasPart
  | [], _, _ => []
  | (dense, row) :: rest, offset, topicOffset =>
      let part := ofTable summary beta betaSum dense row offset topicOffset
      part :: ofTables summary beta betaSum rest (offset + part.buckets.size)
        (topicOffset + part.topics.size)

variable {summary : Summary} {beta betaSum : Float} {tables : List (Bool × Row)}
  {offset topicOffset index : Nat}

theorem ofTables_length : (ofTables summary beta betaSum tables offset topicOffset).length =
    tables.length := by
  induction tables generalizing offset topicOffset with
  | nil => rfl
  | cons entry tables ih => rw [ofTables, List.length_cons, ih, List.length_cons]

theorem getElem?_ofTables (summary : Summary) (beta betaSum : Float) (offset topicOffset : Nat)
    {dense : Bool} {row : Row} (here : tables[index]? = some (dense, row)) :
    ∃ start topicStart, (ofTables summary beta betaSum tables offset topicOffset)[index]? =
      some (ofTable summary beta betaSum dense row start topicStart) := by
  induction tables generalizing offset topicOffset index with
  | nil => exact absurd here (by simp)
  | cons entry tables ih =>
      cases index with
      | zero =>
          obtain rfl := Option.some.inj here
          exact ⟨offset, topicOffset, rfl⟩
      | succ index => exact ih _ _ here

theorem ofTables_ranges (summary : Summary) (beta betaSum : Float) (tables : List (Bool × Row))
    (offset topicOffset : Nat) :
    (ofTables summary beta betaSum tables offset topicOffset).map (fun part =>
        (part.row.offset, part.buckets.size)) =
        Tiles.ofSizes ((ofTables summary beta betaSum tables offset topicOffset).map fun part =>
          part.buckets.size) offset ∧
      (ofTables summary beta betaSum tables offset topicOffset).map (fun part =>
        (part.row.topicOffset, part.topics.size)) =
        Tiles.ofSizes ((ofTables summary beta betaSum tables offset topicOffset).map fun part =>
          part.topics.size)
          topicOffset := by
  induction tables generalizing offset topicOffset with
  | nil => exact ⟨rfl, rfl⟩
  | cons entry tables ih =>
      obtain ⟨dense, row⟩ := entry
      simp only [ofTables, List.map_cons, Tiles.ofSizes]
      obtain ⟨buckets, topics⟩ :=
        ih (offset + (ofTable summary beta betaSum dense row offset topicOffset).buckets.size)
        (topicOffset + (ofTable summary beta betaSum dense row offset topicOffset).topics.size)
      exact ⟨congrArg (_ :: ·) buckets, congrArg (_ :: ·) topics⟩

end AliasPart

/-- A row of proposals whose ranges in the arrays hold a table and the topics of its buckets. -/
structure AliasRow.Carries (table : AliasTable) (entries : List Nat) (buckets : Array Alias.Bucket)
    (topics : Array Nat) (row : AliasRow) : Prop where
  size : row.size = table.buckets.size
  mass : row.mass = table.mass
  buckets : buckets.extract row.offset (row.offset + row.size) = table.buckets
  topics : topics.extract row.topicOffset (row.topicOffset + entries.length) = entries.toArray

namespace AliasSlice

variable {summary : Summary} {beta betaSum : Float}

/-- What stands in the arrays in the end is what stood there, and the parts behind it. -/
theorem appendTables_eq (tables : List (Bool × Row)) (rows : Array AliasRow)
    (buckets : Array Alias.Bucket) (topics : Array Nat) :
    (appendTables summary beta betaSum tables rows buckets topics).1.toList = rows.toList ++
        (AliasPart.ofTables summary beta betaSum tables buckets.size topics.size).map
          AliasPart.row ∧
      (appendTables summary beta betaSum tables rows buckets topics).2.1.toList = buckets.toList ++
        ((AliasPart.ofTables summary beta betaSum tables buckets.size topics.size).map fun part =>
          part.buckets.toList).flatten ∧
      (appendTables summary beta betaSum tables rows buckets topics).2.2.toList = topics.toList ++
        ((AliasPart.ofTables summary beta betaSum tables buckets.size topics.size).map fun part =>
          part.topics.toList).flatten := by
  induction tables generalizing rows buckets topics with
  | nil => simp [appendTables, AliasPart.ofTables]
  | cons entry tables ih =>
      obtain ⟨dense, row⟩ := entry
      cases made : tableOf dense row summary beta betaSum with
      | mk table entries =>
          simp only [appendTables, AliasPart.ofTables, AliasPart.ofTable, made, List.map_cons,
            List.flatten_cons]
          obtain ⟨rowsAfter, bucketsAfter, topicsAfter⟩ := ih
            (rows.push ⟨buckets.size, table.buckets.size, topics.size, dense, table.mass⟩)
              (buckets ++ table.buckets)
            (topics ++ entries)
          have size : (topics ++ entries).size = topics.size + entries.toArray.size := by
            rw [← Array.length_toList, Array.toList_appendList, List.length_append,
              Array.length_toList]
            rfl
          rw [Array.size_append, size] at rowsAfter bucketsAfter topicsAfter
          refine ⟨?_, ?_, ?_⟩
          · rw [rowsAfter, Array.toList_push, List.append_assoc]
            rfl
          · rw [bucketsAfter, Array.toList_append, List.append_assoc]
          · rw [topicsAfter, Array.toList_appendList, List.append_assoc]

variable {vocab : Vocabulary} {run : SliceMeta} {slice : Slice}

def parts (vocab : Vocabulary) (run : SliceMeta) (slice : Slice) (summary : Summary)
    (beta betaSum : Float) : List AliasPart :=
  AliasPart.ofTables summary beta betaSum (tables vocab run slice) 0 0

theorem build_eq (vocab : Vocabulary) (run : SliceMeta) (slice : Slice) (summary : Summary)
    (beta betaSum : Float) :
    (build vocab run slice summary beta betaSum).rows.toList =
        (parts vocab run slice summary beta betaSum).map AliasPart.row ∧
      (build vocab run slice summary beta betaSum).buckets.toList =
        ((parts vocab run slice summary beta betaSum).map fun part => part.buckets.toList).flatten ∧
      (build vocab run slice summary beta betaSum).topics.toList =
        ((parts vocab run slice summary beta betaSum).map fun part => part.topics.toList).flatten :=
  appendTables_eq (tables vocab run slice) #[] #[] #[]

theorem build_carries {index : Nat} {dense : Bool} {row : Row}
    (here : (tables vocab run slice)[index]? = some (dense, row)) (summary : Summary)
    (beta betaSum : Float) :
    ∃ made, (build vocab run slice summary beta betaSum).rows[index]? = some made ∧
      made.dense = dense ∧
      made.Carries (tableOf dense row summary beta betaSum).1
        (tableOf dense row summary beta betaSum).2
        (build vocab run slice summary beta betaSum).buckets
          (build vocab run slice summary beta betaSum).topics := by
  obtain ⟨rows, buckets, topics⟩ := build_eq vocab run slice summary beta betaSum
  obtain ⟨offset, topicOffset, there⟩ :
    ∃ offset topicOffset, (parts vocab run slice summary beta betaSum)[index]? =
      some (AliasPart.ofTable summary beta betaSum dense row offset topicOffset) :=
    AliasPart.getElem?_ofTables summary beta betaSum 0 0 here
  obtain ⟨bucketRanges, topicRanges⟩ :=
    AliasPart.ofTables_ranges summary beta betaSum (tables vocab run slice) 0 0
  refine ⟨(AliasPart.ofTable summary beta betaSum dense row offset topicOffset).row, ?_, rfl,
    rfl, rfl, ?_, ?_⟩
  · rw [← Array.getElem?_toList, rows, List.getElem?_map, there, Option.map_some]
  · exact Tiles.extract_eq bucketRanges buckets there
  · exact Tiles.extract_eq topicRanges topics there

theorem exists_table (valid : slice.Valid) (shape : (Slice.ofVocabulary vocab run).SameShape slice)
    {index word : Nat} (here : slice.words[index]? = some word) :
    ∃ entry row, (vocab.sliceWords run)[index]? = some entry ∧ entry.word = word ∧
      slice.rows[index]? = some (word, row) ∧
      (tables vocab run slice)[index]? = some (entry.aliasDense, row) := by
  have own := here
  rw [shape.words, Slice.ofVocabulary, List.getElem?_toArray, List.getElem?_map,
    Option.map_eq_some_iff] at own
  obtain ⟨entry, seated, same⟩ := own
  have listed : (slice.rows.map Prod.fst)[index]? = some word := by
    rw [Store.slice_rows_words valid, Array.getElem?_toList, here]
  rw [List.getElem?_map, Option.map_eq_some_iff] at listed
  obtain ⟨⟨_, row⟩, place, rfl⟩ := listed
  refine ⟨entry, row, seated, same, place, ?_⟩
  rw [tables, List.getElem?_zip_eq_some, List.getElem?_map, seated, List.getElem?_map, place]
  exact ⟨rfl, rfl⟩

end AliasSlice

end LatentTopics
