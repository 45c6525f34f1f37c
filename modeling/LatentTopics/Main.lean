import LatentTopics.Command.Run

/-! The program: the command line over the files of the system. -/
namespace LatentTopics

def attempt (action : IO Unit) : IO Bool := do
  try
    action
    return true
  catch _ => return false

instance : MonadFiles IO where
  readFile path := do
    try
      return some (← IO.FS.readBinFile path)
    catch _ => return none
  writeFile path bytes := attempt (IO.FS.writeBinFile path bytes)
  moveFile source target := attempt (IO.FS.rename source target)

end LatentTopics

def main (arguments : List String) : IO UInt32 := do
  let outcome ← LatentTopics.Command.run arguments (← IO.rand 1 18446744073709551615)
  IO.print outcome.output
  match outcome.fault with
  | some fault => IO.eprintln ("error: " ++ fault.message)
  | none => pure ()
  return UInt32.ofNat outcome.code
