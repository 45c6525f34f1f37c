import LatentTopics.Table

/-! The rows of one model slice: how the counts of a word are kept, and where. -/
namespace LatentTopics

/-! How the counts of one word are kept: a frequent word has a cell for every topic, a rare one a
small table with room for its occurrences. -/

inductive RowKind where
  | dense
  | sparse (capacity : Nat)
  deriving DecidableEq, Repr, Inhabited

namespace RowKind

/-- Dense from `numTopics / (2 * loadFactor)` occurrences on, otherwise a table of at least
`loadFactor` slots for each occurrence. A load factor of zero has no threshold. Both products stay
below 2^64 for load factors below 2^63 with as many slots as memory can have. -/
def forFrequency? (frequency numTopics loadFactor : Nat) : Option RowKind :=
  if loadFactor = 0 then none
  else if numTopics / (2 * loadFactor) ≤ frequency then some .dense
  else some (.sparse (loadFactor * frequency).nextPowerOfTwo)

/-- Memory in cells: one for a topic, two for a slot. -/
def cells (numTopics : Nat) : RowKind → Nat
  | .dense => numTopics
  | .sparse capacity => 2 * capacity

def isDense : RowKind → Bool
  | .dense => true
  | .sparse _ => false

end RowKind

/-! The rows of one model slice in two flat buffers. A row keeps its place for ever: a dense row is
a run of cells, a sparse row a window of slots. -/

inductive Layout where
  | dense (offset : Nat)
  | sparse (window : Window) (tombstones : Nat)
  deriving DecidableEq, Repr, Inhabited

def Layout.cleared : Layout → Layout
  | .dense offset => .dense offset
  | .sparse window _ => .sparse window 0

structure Arena where
  numTopics : Nat
  cells : Array Int
  slots : Array Slot
  layouts : Array Layout
  deriving DecidableEq, Repr, Inhabited

inductive Row where
  | dense (cells : Array Int) (offset numTopics : Nat)
  | sparse (slots : Array Slot) (window : Window)

namespace Row

@[inline] def get (topic : Nat) : Row → Int
  | .dense cells offset numTopics => if topic < numTopics then cells.getD (offset + topic) 0 else 0
  | .sparse slots window => Table.get slots window topic

/-- Topics with a count: in topic order for a dense row, in slot order for a sparse one. -/
def pairs : Row → List (Nat × Int)
  | .dense cells offset numTopics =>
      (List.range numTopics).filterMap fun topic =>
        let count := cells.getD (offset + topic) 0
        if count = 0 then none else some (topic, count)
  | .sparse slots window => Table.live slots window

def nonzeroCount : Row → Nat
  | row@(.dense ..) => row.pairs.length
  | .sparse slots window => Table.nonzeroCount slots window

def isDense : Row → Bool
  | .dense .. => true
  | .sparse .. => false

def capacity : Row → Nat
  | .dense _ _ numTopics => numTopics
  | .sparse _ window => window.capacity

def total (row : Row) : Int :=
  (row.pairs.map Prod.snd).foldr (· + ·) 0

end Row

namespace Arena

def empty (numTopics : Nat) : Arena :=
  ⟨numTopics, #[], #[], #[]⟩

def push (kind : RowKind) : Arena → Arena
  | ⟨numTopics, cells, slots, layouts⟩ =>
      match kind with
      | .dense =>
          let layout := Layout.dense cells.size
          ⟨numTopics, cells ++ Array.replicate numTopics 0, slots, layouts.push layout⟩
      | .sparse capacity =>
          let layout := Layout.sparse ⟨slots.size, capacity⟩ 0
          ⟨numTopics, cells, slots ++ Array.replicate capacity .empty, layouts.push layout⟩

def ofKinds (numTopics : Nat) (kinds : List RowKind) : Arena :=
  kinds.foldl (fun arena kind => arena.push kind) (empty numTopics)

def size (arena : Arena) : Nat :=
  arena.layouts.size

@[inline] def readAs (arena : Arena) : Layout → Row
  | .dense offset => .dense arena.cells offset arena.numTopics
  | .sparse window _ => .sparse arena.slots window

@[inline] def row? (arena : Arena) (index : Nat) : Option Row :=
  match arena.layouts[index]? with
  | some layout => some (arena.readAs layout)
  | none => none

def tombstones (arena : Arena) (index : Nat) : Nat :=
  match arena.layouts[index]? with
  | some (.sparse _ tombstones) => tombstones
  | _ => 0

/-- The count of a topic in a row; a row that does not exist holds none. -/
@[inline] def get (arena : Arena) (index topic : Nat) : Int :=
  match arena.layouts[index]? with
  | some layout => (arena.readAs layout).get topic
  | none => 0

def addDense (offset topic : Nat) (delta : Int) : Update Arena Unit
  | ⟨numTopics, cells, slots, layouts⟩ =>
      if topic < numTopics then
        let count := cells.getD (offset + topic) 0 + delta
        if count < 0 then .error (.negativeCount topic count) ⟨numTopics, cells, slots, layouts⟩
        else .ok () ⟨numTopics, cells.setIfInBounds (offset + topic) (Number.narrow count),
          slots, layouts⟩
      else .error (.topicOutOfRange topic numTopics) ⟨numTopics, cells, slots, layouts⟩

def addSparse (index : Nat) (window : Window) (tombstones topic : Nat) (delta : Int) :
    Update Arena Unit
  | ⟨numTopics, cells, slots, layouts⟩ =>
      match Table.add window topic delta ⟨slots, tombstones⟩ with
      | .ok _ ⟨slots, left⟩ =>
          .ok () ⟨numTopics, cells, slots, layouts.setIfInBounds index (.sparse window left)⟩
      | .error fault ⟨slots, _⟩ => .error fault ⟨numTopics, cells, slots, layouts⟩

def add (index topic : Nat) (delta : Int) : Update Arena Unit := fun arena =>
  match arena.layouts[index]? with
  | some (.dense offset) => addDense offset topic delta arena
  | some (.sparse window tombstones) => addSparse index window tombstones topic delta arena
  | none => .error (.breach .indexOutOfRange) arena

/-- Drops every count and keeps the places of the rows. -/
def clear (arena : Arena) : Arena :=
  { arena with
    cells := Array.replicate arena.cells.size 0
    slots := Array.replicate arena.slots.size .empty
    layouts := arena.layouts.map Layout.cleared }

end Arena

end LatentTopics
