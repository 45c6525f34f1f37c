import Mathlib
import LatentTopics.Proofs.Row.Addition
import LatentTopics.Proofs.Table.Windows

/-! What a row holds, cut out of the buffers of its arena. An addition to a row works on what the
row holds, and all other rows keep what they hold. -/
namespace LatentTopics

/-- A row without its place: the counts of a dense one, the
slots and the tombstones of a sparse one. -/
inductive Content where
  | dense (counts : Array Int)
  | sparse (table : Table)
  deriving DecidableEq, Repr

namespace Content

def fresh (numTopics : Nat) : RowKind → Content
  | .dense => .dense (Array.replicate numTopics 0)
  | .sparse capacity => .sparse ⟨Array.replicate capacity .empty, 0⟩

def cleared : Content → Content
  | .dense counts => .dense (Array.replicate counts.size 0)
  | .sparse table => .sparse ⟨Array.replicate table.slots.size .empty, 0⟩

def add (topic : Nat) (delta : Int) : Update Content Unit
  | .dense counts =>
      if topic < counts.size then
        let count := counts.getD topic 0 + delta
        if count < 0 then .error (.negativeCount topic count) (.dense counts)
        else .ok () (.dense (counts.setIfInBounds topic (Number.narrow count)))
      else .error (.topicOutOfRange topic counts.size) (.dense counts)
  | .sparse table =>
      match Table.add ⟨0, table.slots.size⟩ topic delta table with
      | .ok _ table => .ok () (.sparse table)
      | .error fault table => .error fault (.sparse table)

end Content

namespace Arena

def contentAs (arena : Arena) : Layout → Content
  | .dense offset => .dense (arena.cells.extract offset (offset + arena.numTopics))
  | .sparse window tombstones => .sparse (Table.cut window ⟨arena.slots, tombstones⟩)

def content? (arena : Arena) (index : Nat) : Option Content :=
  arena.layouts[index]?.map arena.contentAs

structure Rewrites (index : Nat) (before after : Arena) (content : Content) : Prop where
  valid : Valid after
  own : after.content? index = some content
  others : ∀ row, row ≠ index → after.content? row = before.content? row
  size : after.size = before.size
  numTopics : after.numTopics = before.numTopics

variable {arena : Arena} {index topic : Nat} {delta : Int}

theorem content?_of_layout {layout : Layout} (here : arena.layouts[index]? = some layout) :
    arena.content? index = some (arena.contentAs layout) := by
  rw [content?, here, Option.map_some]

theorem content?_isSome : (arena.content? index).isSome ↔ index < arena.size := by
  simp [content?, size]

section Push

theorem Placed.contentAs_push {layout : Layout} (placed : Placed arena layout) (kind : RowKind) :
    (arena.push kind).contentAs layout = arena.contentAs layout := by
  cases layout with
  | dense offset =>
      cases kind with
      | dense =>
          simp only [contentAs, Arena.push]
          rw [Arrays.piece_append placed.1]
      | sparse capacity => rfl
  | sparse window tombstones =>
      cases kind with
      | dense => rfl
      | sparse capacity =>
          have fits : window.base + window.capacity ≤ arena.slots.size := placed.sound.fits
          simp only [contentAs, Arena.push, Table.cut, Window.cut]
          rw [Arrays.piece_append fits]

theorem Valid.content?_push (valid : Valid arena) (kind : RowKind) (row : Nat) :
    (arena.push kind).content? row =
      if row = arena.size then some (Content.fresh arena.numTopics kind)
      else arena.content? row := by
  rw [content?, push_layouts, Array.getElem?_push, size]
  split
  · rw [Option.map_some]
    cases kind <;> simp [pushed, contentAs, Arena.push, Content.fresh, Table.cut, Window.cut]
  · cases here : arena.layouts[row]? with
    | none =>
        rw [content?, here]
        rfl
    | some layout =>
        rw [content?_of_layout here, Option.map_some,
          (valid.placed row layout here).contentAs_push kind]

theorem size_push (kind : RowKind) (arena : Arena) : (arena.push kind).size = arena.size + 1 := by
  rw [size, push_layouts, Array.size_push, size]

theorem ofKinds_contents (numTopics : Nat) (kinds : List RowKind)
    (legal : ∀ kind ∈ kinds, kind.Legal) :
    (ofKinds numTopics kinds).size = kinds.length ∧
      ∀ row, (ofKinds numTopics kinds).content? row =
        kinds[row]?.map (Content.fresh numTopics) := by
  induction kinds using List.reverseRecOn with
  | nil => exact ⟨rfl, fun row => rfl⟩
  | append_singleton kinds kind ih =>
      have earlier : ∀ other ∈ kinds, other.Legal :=
        fun other member => legal other (List.mem_append_left _ member)
      obtain ⟨valid, topics, _⟩ := ofKinds_spec numTopics kinds earlier
      obtain ⟨length, contents⟩ := ih earlier
      have step : ofKinds numTopics (kinds ++ [kind]) = (ofKinds numTopics kinds).push kind := by
        rw [ofKinds, List.foldl_append]
        rfl
      rw [step]
      refine ⟨by rw [size_push, length, List.length_append, List.length_singleton], ?_⟩
      intro row
      rw [valid.content?_push, length, topics, contents]
      by_cases last : row = kinds.length
      · rw [if_pos last, last, List.getElem?_concat_length, Option.map_some]
      · rw [if_neg last, List.getElem?_append]
        split
        · rfl
        · next beyond =>
          rw [List.getElem?_eq_none (by omega),
            List.getElem?_eq_none (by rw [List.length_singleton]; omega)]

end Push

section Clear

theorem size_clear (arena : Arena) : arena.clear.size = arena.size :=
  Array.size_map

theorem Valid.content?_clear (valid : Valid arena) (row : Nat) :
    arena.clear.content? row = (arena.content? row).map Content.cleared := by
  cases here : arena.layouts[row]? with
  | none => simp [content?, Arena.clear, here]
  | some layout =>
      have there : arena.clear.layouts[row]? = some layout.cleared := by
        simp [Arena.clear, here]
      rw [content?_of_layout there, content?_of_layout here, Option.map_some]
      have placed := valid.placed row layout here
      cases layout with
      | dense offset =>
          have fits := placed.1
          simp [Layout.cleared, contentAs, Content.cleared, Arena.clear, Nat.min_eq_left fits]
      | sparse window tombstones =>
          have fits : window.base + window.capacity ≤ arena.slots.size := placed.sound.fits
          simp [Layout.cleared, contentAs, Content.cleared, Arena.clear, Nat.min_eq_left fits,
            Table.cut, Window.cut]

end Clear

section Add

theorem Rewrites.refl (valid : Valid arena) {content : Content}
    (here : arena.content? index = some content) : Rewrites index arena arena content :=
  ⟨valid, here, fun _ _ => rfl, rfl, rfl⟩

theorem Valid.content?_setDense (valid : Valid arena) {offset : Nat}
    (here : arena.layouts[index]? = some (.dense offset)) (below : topic < arena.numTopics)
    (count : Int) (row : Nat) :
    content? ⟨arena.numTopics, arena.cells.setIfInBounds (offset + topic) count, arena.slots,
        arena.layouts⟩ row =
      if row = index then
        some (.dense ((arena.cells.extract offset (offset + arena.numTopics)).setIfInBounds
          topic count))
      else arena.content? row := by
  have fits := (valid.placed index _ here).1
  split
  · next own =>
    subst own
    rw [content?, here, Option.map_some, contentAs, Arrays.piece_set fits below]
  · next other =>
    rw [content?, content?]
    cases there : arena.layouts[row]? with
    | none => rfl
    | some layout =>
        rw [Option.map_some, Option.map_some]
        cases layout with
        | sparse window tombstones => rfl
        | dense start =>
            have fits' := (valid.placed row _ there).1
            simp only [contentAs]
            rw [Arrays.piece_congr fits' (by rw [Array.size_setIfInBounds]; exact fits') 0]
            intro position inside
            rw [valid.getD_setDense here below there inside, if_neg (fun both => other both.1)]

theorem Valid.rewrites_dense (valid : Valid arena) {offset : Nat}
    (here : arena.layouts[index]? = some (.dense offset)) (below : topic < arena.numTopics)
    {count : Int} (range : Number.Int32Range count) :
    Rewrites index arena ⟨arena.numTopics, arena.cells.setIfInBounds (offset + topic) count,
        arena.slots, arena.layouts⟩
      (.dense ((arena.cells.extract offset (offset + arena.numTopics)).setIfInBounds topic
        count)) := by
  have contents := valid.content?_setDense here below count
  constructor
  · exact (valid.setDense here below range).valid
  · rw [contents, if_pos rfl]
  · intro row other
    rw [contents, if_neg other]
  · rfl
  · rfl

theorem Valid.content?_setSparse (valid : Valid arena) {window : Window} {tombstones : Nat}
    (here : arena.layouts[index]? = some (.sparse window tombstones)) {after : Table}
    (outside : Table.Outside window arena.slots after.slots) (row : Nat) :
    content? ⟨arena.numTopics, arena.cells, after.slots,
        arena.layouts.setIfInBounds index (.sparse window after.tombstones)⟩ row =
      if row = index then some (.sparse (Table.cut window after)) else arena.content? row := by
  rw [content?, Array.getElem?_setIfInBounds]
  by_cases own : row = index
  · rw [if_pos own, if_pos own.symm, if_pos (Array.getElem?_eq_some_iff.mp here).1]
    rfl
  · rw [if_neg own, if_neg (Ne.symm own), content?]
    cases there : arena.layouts[row]? with
    | none => rfl
    | some layout =>
        rw [Option.map_some, Option.map_some]
        cases layout with
        | dense offset => rfl
        | sparse other left =>
            have apart : window.base + window.capacity ≤ other.base ∨
                other.base + other.capacity ≤ window.base :=
              valid.apart index row _ _ (Ne.symm own) here there
            have fits : other.base + other.capacity ≤ arena.slots.size :=
              (show Table.WellFormed other ⟨arena.slots, left⟩ from valid.placed row _
                there).sound.fits
            simp only [contentAs, Table.cut, Window.cut]
            rw [Arrays.piece_congr fits (by rw [outside.size]; exact fits) .empty]
            intro offset inside
            exact outside.slots _ (by omega)

theorem Valid.rewrites_sparse (valid : Valid arena) {window : Window} {tombstones : Nat}
    (here : arena.layouts[index]? = some (.sparse window tombstones)) {count : Int} {after : Table}
    (assigns : Table.Assigns window topic count ⟨arena.slots, tombstones⟩ after) :
    Rewrites index arena ⟨arena.numTopics, arena.cells, after.slots,
      arena.layouts.setIfInBounds index (.sparse window after.tombstones)⟩
        (.sparse (Table.cut window after)) := by
  have contents := valid.content?_setSparse here assigns.outside
  constructor
  · exact (valid.setSparse here assigns).valid
  · rw [contents, if_pos rfl]
  · intro row other
    rw [contents, if_neg other]
  · exact Array.size_setIfInBounds
  · rfl

theorem Valid.addDense_content (valid : Valid arena) {offset : Nat}
    (here : arena.layouts[index]? = some (.dense offset)) (topic : Nat) (delta : Int) :
    Update.Agree (Rewrites index arena) (addDense offset topic delta)
        (Content.add topic delta) arena
      (arena.contentAs (.dense offset)) := by
  have kept := Rewrites.refl valid (content?_of_layout here)
  have length := Arrays.size_piece (valid.placed index _ here).1
  by_cases below : topic < arena.numTopics
  · have read := Arrays.getD_piece (valid.placed index _ here).1 below 0
    constructor
    · simp only [Update.refusal, addDense, contentAs, Content.add, length, read, if_pos below]
      split_ifs <;> rfl
    · simp only [Update.left, addDense, contentAs, Content.add, length, read, if_pos below]
      split_ifs
      · exact kept
      · exact valid.rewrites_dense here below (Number.narrow_range _)
  · constructor
    · simp only [Update.refusal, addDense, contentAs, Content.add, length, if_neg below]
    · simp only [Update.left, addDense, contentAs, Content.add, length, if_neg below]
      exact kept

theorem Valid.addSparse_content (valid : Valid arena) {window : Window} {tombstones : Nat}
    (here : arena.layouts[index]? = some (.sparse window tombstones)) (topic : Nat)
    (range : Number.Int32Range delta) :
    Update.Agree (Rewrites index arena) (addSparse index window tombstones topic delta)
        (Content.add topic delta) arena
      (arena.contentAs (.sparse window tombstones)) := by
  have placed : Table.WellFormed window ⟨arena.slots, tombstones⟩ := valid.placed index _ here
  have fits : window.base + window.capacity ≤ arena.slots.size := placed.sound.fits
  -- Cut out, the table is in a window of its own.
  have length : (Table.cut window ⟨arena.slots, tombstones⟩).slots.size = window.capacity :=
    Table.cut_size fits
  have own : (⟨0, (Table.cut window ⟨arena.slots, tombstones⟩).slots.size⟩ : Window) =
      window.own := by
    rw [length]
    rfl
  have agree : Update.Agree (fun whole piece => Table.cut window whole = piece)
      (Table.add window topic delta)
      (Table.add window.own topic delta) ⟨arena.slots, tombstones⟩
        (Table.cut window ⟨arena.slots, tombstones⟩) :=
    Table.add_cut fits placed.sound.positive topic delta
  rcases agree.outcomes with ⟨_, after, _, piece, added, added', rfl⟩ | ⟨fault, after, piece,
    failed, failed', rfl⟩
  · have rewrites := valid.rewrites_sparse here (placed.assigns_of_ok range added)
    constructor
    · simp only [Update.refusal, addSparse, contentAs, Content.add, own, added, added']
    · simp only [Update.left, addSparse, contentAs, Content.add, own, added, added']
      exact rewrites
  · obtain rfl := Table.add_error failed
    constructor
    · simp only [Update.refusal, addSparse, contentAs, Content.add, own, failed, failed']
    · simp only [Update.left, addSparse, contentAs, Content.add, own, failed, failed']
      exact Rewrites.refl valid (content?_of_layout here)

/-- An addition does to the content of its row what it does
to the content alone, and to no other content anything. -/
theorem Valid.add_content (valid : Valid arena) {content : Content}
    (here : arena.content? index = some content) (topic : Nat) (range : Number.Int32Range delta) :
    Update.Agree (Rewrites index arena) (add index topic delta) (Content.add topic delta)
        arena content := by
  obtain ⟨layout, layoutHere, rfl⟩ := Option.map_eq_some_iff.mp here
  cases layout with
  | dense offset =>
      have same : add index topic delta arena = addDense offset topic delta arena := by
        simp only [add, layoutHere]
      exact (valid.addDense_content layoutHere topic delta).congr same
  | sparse window tombstones =>
      have same : add index topic delta arena = addSparse index window tombstones topic
          delta arena := by
        simp only [add, layoutHere]
      exact (valid.addSparse_content layoutHere topic range).congr same

end Add

end Arena

end LatentTopics
