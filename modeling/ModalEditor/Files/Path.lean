/-!
# Paths

A `Path` is written with slashes.  Repeated slashes and single dots between names mean nothing,
except that a dot at the start of a relative path is a component of its own.  Taking a path apart
(`Path.fileName?`, `Path.parent?`) looks at its text only; what it leads to is a matter of the
file tree.
-/

namespace ModalEditor

/-- The name of a place in a file tree. -/
structure Path where
  text : String
deriving DecidableEq, Repr

namespace Path

variable (p : Path)

/-- The pieces between the slashes. -/
def pieces : List (List Char) := p.text.toList.splitOn '/'

/-- The path starts at the root. -/
def isAbsolute : Bool := p.text.toList.head? == some '/'

/-- A piece that names nothing. -/
def isFiller (piece : List Char) : Bool := piece == [] || piece == ['.']

/-- The pieces without fillers at their end. -/
def trimFillers (pieces : List (List Char)) : List (List Char) :=
  (pieces.reverse.dropWhile isFiller).reverse

/-- The last component and the path before it.  The root alone and the empty path have no
components. -/
def splitLast? : Option (Path × String) :=
  match p.pieces with
  | [] => none
  | first :: rest =>
    let rest := trimFillers rest
    match rest.getLast? with
    | some last =>
      let before := first :: trimFillers rest.dropLast
      let text := if before = [[]] then ['/'] else ['/'].intercalate before
      some (⟨String.ofList text⟩, String.ofList last)
    | none => if first = [] then none else some (⟨""⟩, String.ofList first)

/-- The path without its last component. -/
def parent? : Option Path := p.splitLast?.map (·.1)

/-- The name of the file, if the path ends with a name. -/
def fileName? : Option String :=
  match p.splitLast? with
  | some (_, name) => if name = "." ∨ name = ".." then none else some name
  | none => none

/-- `name` inside the directory `p`. -/
def child (name : String) : Path :=
  if p.text = "" ∨ p.text.toList.getLast? = some '/' then ⟨p.text ++ name⟩
  else ⟨p.text ++ "/" ++ name⟩

/-- The names the path is made of, dots included. -/
def names : List String := (p.pieces.filter (· ≠ [])).map String.ofList

/-- The path ends with a slash. -/
def endsWithSlash : Bool := p.text.toList.getLast? == some '/'

end Path

end ModalEditor
