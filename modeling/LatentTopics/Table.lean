import LatentTopics.Fault
import LatentTopics.Number

/-! Topic counts by open addressing. A table works on one window of a slot array, so that many
tables share an array; it never reads or writes outside its window. A search starts at the topic's
home and takes steps of one, two, three, and so on, which reaches every slot of a window whose
capacity is a power of two. A count that drops to zero leaves a tombstone, so that chains running
through it stay whole; the first tombstone of a chain is where a new topic goes. -/
namespace LatentTopics

inductive Slot where
  | empty
  | tombstone
  | occupied (topic : Nat) (count : Int)
  deriving DecidableEq, Repr, Inhabited

def Slot.pair? : Slot → Option (Nat × Int)
  | .occupied topic count => some (topic, count)
  | _ => none

structure Window where
  base : Nat
  capacity : Nat
  deriving DecidableEq, Repr

/-- The slot array and the number of tombstones of the window in use. -/
structure Table where
  slots : Array Slot
  tombstones : Nat
  deriving DecidableEq, Repr, Inhabited

namespace Table

inductive Probe where
  | found (index : Nat) (count : Int)
  | vacant (index : Nat)
  | full
  deriving DecidableEq, Repr

/-- Follows a chain for at most the given number of probes; `hole` is the first tombstone met. -/
def probeFrom (slots : Array Slot) (window : Window) (topic : Nat) :
    Nat → Nat → Nat → Option Nat → Probe
  | 0, _, _, hole =>
      match hole with
      | some index => .vacant index
      | none => .full
  | probes + 1, step, offset, hole =>
      let index := window.base + offset
      let next := (offset + step) % window.capacity
      match slots.getD index .empty with
      | .empty => .vacant (hole.getD index)
      | .tombstone => probeFrom slots window topic probes (step + 1) next (hole.or (some index))
      | .occupied occupant count =>
          if occupant = topic then .found index count
          else probeFrom slots window topic probes (step + 1) next hole

def home (window : Window) (topic : Nat) : Nat :=
  (topic + 1) % window.capacity

def probe (slots : Array Slot) (window : Window) (topic : Nat) : Probe :=
  probeFrom slots window topic window.capacity 1 (home window topic) none

def get (slots : Array Slot) (window : Window) (topic : Nat) : Int :=
  match probe slots window topic with
  | .found _ count => count
  | _ => 0

def live (slots : Array Slot) (window : Window) : List (Nat × Int) :=
  (List.range' window.base window.capacity).filterMap fun index => (slots.getD index .empty).pair?

def nonzeroCount (slots : Array Slot) (window : Window) : Nat :=
  (live slots window).countP fun pair => pair.2 ≠ 0

def clear (slots : Array Slot) (window : Window) : Array Slot :=
  (List.range' window.base window.capacity).foldl (fun slots index =>
    slots.setIfInBounds index .empty) slots

/-- Stores a topic that the window does not hold; a full window is left as it is. -/
def insertNew (window : Window) (slots : Array Slot) (entry : Nat × Int) : Array Slot :=
  match probe slots window entry.1 with
  | .vacant index => slots.setIfInBounds index (.occupied entry.1 entry.2)
  | _ => slots

def rehash (window : Window) (table : Table) : Table :=
  let entries := live table.slots window
  ⟨entries.foldl (insertNew window) (clear table.slots window), 0⟩

/-- Tombstones may hold one slot in this many before the window is rebuilt. -/
def tombstoneRatio : Nat := 50

def bury (window : Window) (index : Nat) (table : Table) : Table :=
  let buried : Table := ⟨table.slots.setIfInBounds index .tombstone, table.tombstones + 1⟩
  if window.capacity < buried.tombstones * tombstoneRatio then rehash window buried else buried

def occupy (index topic : Nat) (count : Int) : Table → Table
  | ⟨slots, tombstones⟩ =>
      let left := match slots.getD index .empty with
        | .tombstone => tombstones - 1
        | _ => tombstones
      ⟨slots.setIfInBounds index (.occupied topic count), left⟩

def add (window : Window) (topic : Nat) (delta : Int) : Update Table Unit := fun table =>
  match probe table.slots window topic with
  | .full => .error (.tableFull topic window.capacity) table
  | .found index current =>
      let count := current + delta
      if count < 0 then .error (.negativeCount topic count) table
      else if count = 0 then .ok () (bury window index table)
      else .ok () (occupy index topic (Number.narrow count) table)
  | .vacant index =>
      if delta < 0 then .error (.negativeCount topic delta) table
      else if delta = 0 then .ok () table
      else .ok () (occupy index topic delta table)

end Table

end LatentTopics
