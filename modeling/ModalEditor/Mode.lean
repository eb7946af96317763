/-!
# Modes

The editor is always in one of three modes, which decides what a key means.
-/

namespace ModalEditor

/-- What keys mean. -/
inductive Mode where
  /-- Keys are commands. -/
  | normal
  /-- Keys are text. -/
  | insert
  /-- Keys are commands on the selection. -/
  | visual
deriving DecidableEq, Repr

namespace Mode

/-- The name of the mode as shown to the user. -/
def label (m : Mode) (lineWise : Bool) : String :=
  match m with
  | normal => "NORMAL"
  | insert => "INSERT"
  | visual => if lineWise then "VISUAL LINE" else "VISUAL"

end Mode

end ModalEditor
