import ModalEditor.Files.Tree
import ModalEditor.Text.Lines

/-!
# Loading and saving texts

A text is saved through a temporary file beside its target, which then takes the place of the
target: the target holds the old text or the new one, never a part.  When the second step fails
the temporary file stays.

A file that does not exist loads as an empty text, so that saving creates it.
-/

namespace ModalEditor

/-- Why a text could not be loaded or saved. -/
inductive StoreError where
  | noFileName
  | invalidFileName (p : Path)
  | read (p : Path) (cause : FileError)
  | readInput (cause : FileError)
  | writeTemporary (p : Path) (cause : FileError)
  | renameTemporary (p : Path) (cause : FileError)
deriving DecidableEq, Repr

namespace StoreError

/-- The error in words. -/
def message : StoreError → String
  | noFileName => "No file name"
  | invalidFileName p => "Invalid file name: " ++ p.text
  | read p cause => "Failed to read file: " ++ p.text ++ ": " ++ cause.message
  | readInput cause => "Failed to read from stdin: " ++ cause.message
  | writeTemporary p cause => "Failed to write temp file: " ++ p.text ++ ": " ++ cause.message
  | renameTemporary p cause =>
    "Failed to rename temp file to " ++ p.text ++ ": " ++ cause.message

end StoreError

/-- The temporary file for saving to `p`, if `p` names a file. -/
def Path.temporary? (p : Path) : Option Path := do
  let name ← p.fileName?
  let parent ← p.parent?
  return parent.child (name ++ ".tmp")

namespace FileTree

variable (t : FileTree)

/-- Save `ls` at `p`. -/
def save (p : Path) (ls : Lines) : FileTree × Option StoreError :=
  match p.temporary? with
  | none => (t, some (.invalidFileName p))
  | some temporary =>
    match t.writeText temporary (String.ofList ls.text) with
    | .error e => (t, some (.writeTemporary temporary e))
    | .ok t' =>
      match t'.rename temporary p with
      | .error e => (t', some (.renameTemporary p e))
      | .ok t'' => (t'', none)

/-- Load the lines of the file at `p`. -/
def load (p : Path) : Except StoreError Lines :=
  match t.readText p with
  | .ok text => .ok (.ofForeignText text.toList)
  | .error .notFound => .ok (.ofText [])
  | .error e => .error (.read p e)

end FileTree

end ModalEditor
