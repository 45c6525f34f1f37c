import LatentTopics.Fault

/-! Access to files, and a disk that is a plain value. The disk has one directory; a path may go
through subdirectories that hold a file. -/
namespace LatentTopics

class MonadFiles (m : Type → Type) where
  readFile : String → m (Option ByteArray)
  /-- Creates or replaces a file; false if it cannot be written. -/
  writeFile : String → ByteArray → m Bool
  moveFile : String → String → m Bool

namespace Path

/-- Bytes of the longest name that a file can have. -/
def longestName : Nat := 255

def isUsable (name : String) : Bool :=
  name.utf8ByteSize ≤ longestName && !name.toList.contains '\x00'

/-- The names on the way to a file, none for a path that names a directory or cannot name a file. -/
def names? (path : String) : Option (List String) :=
  let parts := path.splitOn "/"
  match parts.getLast? with
  | none => none
  | some last =>
      if last = "" ∨ last = "." ∨ last = ".." ∨ parts.head? = some "" then none
      else if parts.all isUsable then some (parts.filter fun part => part ≠ "" ∧ part ≠ ".")
      else none

end Path

structure Disk where
  files : List (List String × ByteArray)

namespace Disk

def empty : Disk := ⟨[]⟩

/-- A directory exists when a file is in it; the outermost one always does. -/
def hasDirectory (disk : Disk) (names : List String) : Bool :=
  names.isEmpty || disk.files.any fun file => names.isPrefixOf file.1 &&
    names.length < file.1.length

def remove (names : List String) (disk : Disk) : Disk :=
  ⟨disk.files.filter fun file => file.1 ≠ names⟩

def put (names : List String) (bytes : ByteArray) (disk : Disk) : Disk :=
  ⟨(disk.remove names).files ++ [(names, bytes)]⟩

def find? (disk : Disk) (names : List String) : Option ByteArray :=
  (disk.files.find? fun file => file.1 = names).map Prod.snd

def accepts (disk : Disk) (names : List String) : Bool :=
  disk.hasDirectory names.dropLast && !disk.hasDirectory names

def read? (path : String) (disk : Disk) : Option ByteArray :=
  (Path.names? path).bind disk.find?

def write? (path : String) (bytes : ByteArray) (disk : Disk) : Option Disk :=
  match Path.names? path with
  | some names => if disk.accepts names then some (disk.put names bytes) else none
  | none => none

def move? (source target : String) (disk : Disk) : Option Disk :=
  match Path.names? source, Path.names? target with
  | some source, some target =>
      match disk.find? source with
      | some bytes =>
          if disk.accepts target then some ((disk.remove source).put target bytes) else none
      | none => none
  | _, _ => none

def replace (disk : Disk) : Option Disk → Bool × Disk
  | some changed => (true, changed)
  | none => (false, disk)

end Disk

instance : MonadFiles (StateM Disk) where
  readFile path := fun disk => (disk.read? path, disk)
  writeFile path bytes := fun disk => disk.replace (disk.write? path bytes)
  moveFile source target := fun disk => disk.replace (disk.move? source target)

namespace MonadFiles

variable {m : Type → Type} [Monad m] [MonadFiles m]

def load (path : String) : m (Except Fault (List UInt8)) := do
  match ← readFile path with
  | some bytes => return .ok bytes.toList
  | none => return .error .unreachableFile

def save (path : String) (bytes : ByteArray) : m (Except Fault Unit) := do
  if ← writeFile path bytes then return .ok () else return .error .unreachableFile

/-- Writes beside the path and moves the whole file into place. -/
def saveWhole (path : String) (bytes : ByteArray) : m (Except Fault Unit) := do
  if ← writeFile (path ++ ".tmp") bytes then
    if ← moveFile (path ++ ".tmp") path then return .ok () else return .error .unreachableFile
  else return .error .unreachableFile

end MonadFiles

end LatentTopics
