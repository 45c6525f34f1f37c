import LatentTopics.Row.Arena

/-! Rebuilds as they are made in an arena. The pairs of a window are put into a buffer, the window
is emptied, and the pairs are stored again from the buffer. All rows of an arena use one buffer, and
what the last rebuild left in it is dropped by the next one. -/
namespace LatentTopics

structure ScratchTable where
  table : Table
  scratch : Array (Nat × Int)
  deriving DecidableEq, Repr, Inhabited

namespace ScratchTable

open Table

/-- Stores pairs one after another. None of the topics may
be there already, and each must find a slot. -/
def restore (window : Window) : List (Nat × Int) → Update (Array Slot) Unit
  | [], slots => .ok () slots
  | (topic, count) :: entries, slots =>
      match probe slots window topic with
      | .vacant index => restore window entries (slots.setIfInBounds index (.occupied topic count))
      | .found _ _ => .error (.breach .invalidShape) slots
      | .full => .error (.tableFull topic window.capacity) slots

def rehash (window : Window) : Update ScratchTable Unit
  | ⟨⟨slots, _⟩, scratch⟩ =>
      let scratch := scratch.shrink 0 ++ live slots window
      match restore window scratch.toList (Table.clear slots window) with
      | .ok _ slots => .ok () ⟨⟨slots, 0⟩, scratch⟩
      | .error fault slots => .error fault ⟨⟨slots, 0⟩, scratch⟩

def bury (window : Window) (index : Nat) : Update ScratchTable Unit
  | ⟨⟨slots, tombstones⟩, scratch⟩ =>
      let buried : ScratchTable := ⟨⟨slots.setIfInBounds index .tombstone, tombstones + 1⟩, scratch⟩
      if window.capacity < (tombstones + 1) * tombstoneRatio then rehash window buried
      else .ok () buried

def add (window : Window) (topic : Nat) (delta : Int) : Update ScratchTable Unit
  | ⟨table, scratch⟩ =>
      match probe table.slots window topic with
      | .full => .error (.tableFull topic window.capacity) ⟨table, scratch⟩
      | .found index current =>
          let count := current + delta
          if count < 0 then .error (.negativeCount topic count) ⟨table, scratch⟩
          else if count = 0 then bury window index ⟨table, scratch⟩
          else .ok () ⟨occupy index topic (Number.narrow count) table, scratch⟩
      | .vacant index =>
          if delta < 0 then .error (.negativeCount topic delta) ⟨table, scratch⟩
          else if delta = 0 then .ok () ⟨table, scratch⟩
          else .ok () ⟨occupy index topic delta table, scratch⟩

end ScratchTable

/-- An arena with the buffer that all its rows share. -/
structure ScratchArena where
  arena : Arena
  scratch : Array (Nat × Int)
  deriving DecidableEq, Repr, Inhabited

namespace ScratchArena

def ofKinds (numTopics : Nat) (kinds : List RowKind) : ScratchArena :=
  ⟨Arena.ofKinds numTopics kinds, #[]⟩

def push (kind : RowKind) : ScratchArena → ScratchArena
  | ⟨arena, scratch⟩ => ⟨arena.push kind, scratch⟩

def clear : ScratchArena → ScratchArena
  | ⟨arena, scratch⟩ => ⟨arena.clear, scratch⟩

def replace (index : Nat) (window : Window) : Arena → ScratchTable → ScratchArena
  | ⟨numTopics, cells, _, layouts⟩, ⟨⟨slots, tombstones⟩, scratch⟩ =>
      ⟨⟨numTopics, cells, slots, layouts.setIfInBounds index (.sparse window tombstones)⟩, scratch⟩

def add (index topic : Nat) (delta : Int) : Update ScratchArena Unit
  | ⟨arena, scratch⟩ =>
      match arena.layouts[index]? with
      | some (.dense offset) =>
          match Arena.addDense offset topic delta arena with
          | .ok _ arena => .ok () ⟨arena, scratch⟩
          | .error fault arena => .error fault ⟨arena, scratch⟩
      | some (.sparse window tombstones) =>
          match ScratchTable.add window topic delta ⟨⟨arena.slots, tombstones⟩, scratch⟩ with
          | .ok _ work => .ok () (replace index window arena work)
          | .error fault work => .error fault (replace index window arena work)
      | none => .error (.breach .indexOutOfRange) ⟨arena, scratch⟩

end ScratchArena

end LatentTopics
