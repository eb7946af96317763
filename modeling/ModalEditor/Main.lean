import ModalEditor.CommandLine.Reach

/-!
# The program

The disk is read into a file tree, the run takes place in the tree, and the changes are written
back.  A file is written beside its place and then moved there, so that it is never seen half
written.
-/

namespace ModalEditor

namespace Disk

/-- The name of a place for the system. -/
def name (l : Location) : String := "/" ++ "/".intercalate l

/-- What stands at a place, as far as it can be read. -/
def entry? (l : Location) : IO (Option Entry) := do
  try
    return some (.file (← IO.FS.readBinFile (name l)))
  catch
    | .inappropriateType _ 21 _ => return some .directory
    | _ => return none

/-- The tree of what stands at the given places. -/
def read (here : Location) (places : List Location) : IO FileTree := do
  let entries ← places.filterMapM fun l => return (← entry? l).map fun e => (l, e)
  return { entries, here }

/-- Write what stands at a place. -/
def put (l : Location) : Entry → IO Unit
  | .directory => IO.FS.createDirAll (name l)
  | .file content => do
    let temporary := name l ++ ".tmp"
    IO.FS.writeBinFile temporary content
    IO.FS.rename temporary (name l)

/-- Change the disk as the tree has changed, file after file up to a change that the disk
refuses. -/
def update (before after : FileTree) : IO Unit := do
  for (l, _) in before.entries do
    if after.get? l = none then IO.FS.removeFile (name l)
  for (l, e) in after.entries do
    if before.get? l ≠ some e then put l e

end Disk

namespace CommandLine

/-- The standard input, which counts as empty when it is a terminal. -/
def readInput : IO ByteArray := do
  let input ← IO.getStdin
  if ← input.isTty then return .empty else input.readBinToEnd

/-- Run with the given arguments.  The text is printed even if it could not be saved. -/
def execute (arguments : List String) : IO UInt32 := do
  let here := Path.names ⟨toString (← IO.currentDir)⟩
  let home := ⟨(← IO.getEnv "HOME").getD "."⟩
  let request := Request.ofArguments arguments
  let files ← Disk.read here (request.places here home)
  let input ← if request.readsInput then readInput else pure .empty
  let (after, outcome) := run { files, home, input } arguments
  try
    Disk.update files after
  catch failure =>
    IO.eprintln failure
  IO.print outcome.output
  return .ofNat outcome.status

end CommandLine

end ModalEditor

def main (arguments : List String) : IO UInt32 := ModalEditor.CommandLine.execute arguments
