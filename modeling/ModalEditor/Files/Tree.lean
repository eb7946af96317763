import ModalEditor.Files.Path

/-!
# File trees

A `FileTree` says what stands at each place: a file with its bytes, or a directory.  A path is
followed name by name (`FileTree.locate`), and the operations on files either give the changed
tree or fail for a `FileError`.

The rules are those of a POSIX system: every name before the last has to lead to a directory, a
slash at the end asks for a directory, and a rename replaces a file but never a directory.
-/

namespace ModalEditor

/-- Why an operation on files fails. -/
inductive FileError where
  | notFound
  | busy
  | exists
  | notDirectory
  | isDirectory
  | nameTooLong
  | nulInName
  | notText
deriving DecidableEq, Repr

namespace FileError

/-- The error in words, with its number where the system gives one. -/
def message : FileError → String
  | notFound => "No such file or directory (os error 2)"
  | busy => "Device or resource busy (os error 16)"
  | .exists => "File exists (os error 17)"
  | notDirectory => "Not a directory (os error 20)"
  | isDirectory => "Is a directory (os error 21)"
  | nameTooLong => "File name too long (os error 36)"
  | nulInName => "file name contained an unexpected NUL byte"
  | notText => "stream did not contain valid UTF-8"

end FileError

/-- What stands at a place. -/
inductive Entry where
  | file (content : ByteArray)
  | directory

instance : DecidableEq Entry
  | .file a, .file b =>
    match ByteArray.instDecidableEq a b with
    | .isTrue h => .isTrue (congrArg Entry.file h)
    | .isFalse h => .isFalse fun e => h (Entry.file.inj e)
  | .directory, .directory => .isTrue rfl
  | .file _, .directory => .isFalse nofun
  | .directory, .file _ => .isFalse nofun

/-- A place: the names on the way from the root. -/
abbrev Location := List String

/-- Files and directories by their places.  The root is a directory without being listed. -/
structure FileTree where
  entries : List (Location × Entry) := []
  /-- Where relative paths start. -/
  here : Location := []

namespace FileTree

variable (t : FileTree)

/-- What stands at `l`. -/
def get? (l : Location) : Option Entry := if l = [] then some .directory else t.entries.lookup l

/-- The tree without the entry at `l`. -/
def remove (l : Location) : FileTree := { t with entries := t.entries.filter fun e => e.1 ≠ l }

/-- The tree with `e` at `l`. -/
def put (l : Location) (e : Entry) : FileTree :=
  { t with entries := (l, e) :: (t.remove l).entries }

/-! ### Following paths -/

/-- Names are at most 255 bytes long. -/
def nameFits (name : String) : Bool := name.utf8ByteSize ≤ 255

/-- Go from a directory into `name`. -/
def enter (l : Location) (name : String) : Except FileError Location :=
  if name = "." then .ok l
  else if name = ".." then .ok l.dropLast
  else if !nameFits name then .error .nameTooLong
  else
    match t.get? (l ++ [name]) with
    | some .directory => .ok (l ++ [name])
    | some (.file _) => .error .notDirectory
    | none => .error .notFound

/-- Where a path leads. -/
inductive Target where
  /-- A directory named by dots or by the root. -/
  | directory (l : Location)
  /-- An entry `name` of the directory `parent`, which need not exist; `slash` tells whether the
  path asks for a directory. -/
  | entry (parent : Location) (name : String) (slash : Bool)

/-- Follow a path up to its last name. -/
def locate (p : Path) : Except FileError Target := do
  if p.text.toList.contains '\x00' then throw .nulInName
  if p.text = "" then throw .notFound
  if 4096 ≤ p.text.utf8ByteSize then throw .nameTooLong
  match p.names.getLast? with
  | none => return .directory []
  | some last =>
    let start := if p.isAbsolute then [] else t.here
    let l ← p.names.dropLast.foldlM t.enter start
    if last = "." ∨ last = ".." then return .directory (← t.enter l last)
    else return .entry l last p.endsWithSlash

/-! ### Operations -/

/-- The bytes of a file. -/
def read (p : Path) : Except FileError ByteArray := do
  match ← t.locate p with
  | .directory _ => throw .isDirectory
  | .entry l name slash =>
    if !nameFits name then throw .nameTooLong
    match t.get? (l ++ [name]) with
    | none => throw .notFound
    | some .directory => throw .isDirectory
    | some (.file content) => if slash then throw .notDirectory else return content

/-- The place where a file can be created or replaced. -/
def writable (p : Path) : Except FileError Location := do
  match ← t.locate p with
  | .directory _ => throw .isDirectory
  | .entry l name slash =>
    if slash then throw .isDirectory
    if !nameFits name then throw .nameTooLong
    match t.get? (l ++ [name]) with
    | some .directory => throw .isDirectory
    | _ => return l ++ [name]

/-- Write a file, creating it or replacing what it held. -/
def write (p : Path) (content : ByteArray) : Except FileError FileTree := do
  return t.put (← t.writable p) (.file content)

/-- Create an empty file, unless there is one. -/
def touch (p : Path) : Except FileError FileTree := do
  let l ← t.writable p
  match t.get? l with
  | some _ => return t
  | none => return t.put l (.file .empty)

/-- Move the file at `source` to `target`, replacing a file there. -/
def rename (source target : Path) : Except FileError FileTree := do
  match ← t.locate source, ← t.locate target with
  | .entry l name _, .entry l' name' slash' =>
    if !nameFits name || !nameFits name' then throw .nameTooLong
    match t.get? (l ++ [name]) with
    | none => throw .notFound
    | some .directory => throw .isDirectory
    | some (.file content) =>
      if slash' then throw .notDirectory
      if t.get? (l' ++ [name']) = some .directory then throw .isDirectory
      return (t.remove (l ++ [name])).put (l' ++ [name']) (.file content)
  | _, _ => throw .busy

/-- `p` leads to a directory. -/
def isDirectory (p : Path) : Bool :=
  match t.locate p with
  | .ok (.directory _) => true
  | .ok (.entry l name _) => nameFits name && t.get? (l ++ [name]) == some .directory
  | .error _ => false

/-- Create a directory. -/
def makeDirectory (p : Path) : Except FileError FileTree := do
  match ← t.locate p with
  | .directory _ => throw .exists
  | .entry l name _ =>
    if !nameFits name then throw .nameTooLong
    match t.get? (l ++ [name]) with
    | some _ => throw .exists
    | none => return t.put (l ++ [name]) .directory

/-- The last step of `makeDirectories`: a directory that is there already will do. -/
def ensureDirectory (p : Path) : Except FileError FileTree :=
  match t.makeDirectory p with
  | .ok t' => .ok t'
  | .error e => if t.isDirectory p then .ok t else .error e

/-- Create a directory with those it lies in, at most `depth` levels up.  What was created before
a failure stays. -/
def makeDirectoriesUpTo : (depth : Nat) → Path → FileTree → FileTree × Option FileError
  | 0, _, t => (t, none)
  | depth + 1, p, t =>
    if p.text = "" then (t, none)
    else
      match t.ensureDirectory p with
      | .ok t' => (t', none)
      | .error .notFound =>
        match p.parent? with
        | none => (t, some .notFound)
        | some parent =>
          match makeDirectoriesUpTo depth parent t with
          | (t', some e) => (t', some e)
          | (t', none) =>
            match t'.ensureDirectory p with
            | .ok t'' => (t'', none)
            | .error e => (t', some e)
      | .error e => (t, some e)

/-- Create a directory with all those it lies in. -/
def makeDirectories (p : Path) : FileTree × Option FileError :=
  t.makeDirectoriesUpTo (p.pieces.length + 1) p

/-- The text of a file, if it is text. -/
def readText (p : Path) : Except FileError String := do
  match String.fromUTF8? (← t.read p) with
  | some text => return text
  | none => throw .notText

/-- Write a text file. -/
def writeText (p : Path) (text : String) : Except FileError FileTree := t.write p text.toUTF8

end FileTree

end ModalEditor
