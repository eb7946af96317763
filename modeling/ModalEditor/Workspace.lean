import ModalEditor.Buffer
import ModalEditor.Files.Store
import ModalEditor.Text.Numeral

/-!
# Workspaces and host commands

A `Workspace` is a buffer among the files it is loaded from and saved to.  The commands that can
be bound to keys, the host commands, act on a workspace; a command that fails leaves behind what
it has done so far.
-/

namespace ModalEditor

/-- A buffer and the files around it. -/
structure Workspace where
  buffer : Buffer := {}
  files : FileTree := {}

/-- Why a host command fails. -/
inductive HostError where
  | unknownCommand (name : String)
  | missingLine
  | badLine (cause : NumeralError)
  | unknownPlace (name : String)
  | store (cause : StoreError)
  /-- A command bound to a key failed. -/
  | bound (name : String) (cause : HostError)
deriving DecidableEq, Repr

namespace HostError

/-- The error in words. -/
def message : HostError → String
  | unknownCommand name => "unknown command: " ++ name
  | missingLine => "revealLine: missing line"
  | badLine cause => "revealLine: line must be a number: " ++ cause.message
  | unknownPlace name => "revealLine: unknown position `" ++ name ++ "`"
  | store cause => cause.message
  | bound name cause => "command `" ++ name ++ "` failed: " ++ cause.message

end HostError

/-- A place in the view by its name. -/
def ViewPlace.ofName? (name : String) : Option ViewPlace :=
  if name = "center" then some .center
  else if name = "top" then some .top
  else if name = "bottom" then some .bottom
  else none

namespace Workspace

variable (w : Workspace)

/-- Load the file at `p`; a file that does not exist gives an empty buffer named after it. -/
def load (files : FileTree) (p : Path) : Except StoreError Workspace := do
  let lines ← files.load p
  return { files, buffer := { document := { lines }, path := some p } }

/-- Save the buffer to its file. -/
def save : Workspace × Option StoreError :=
  match w.buffer.path with
  | none => (w, some .noFileName)
  | some p =>
    match w.files.save p w.buffer.lines with
    | (files, none) => ({ files, buffer := { w.buffer with dirty := false } }, none)
    | (files, some e) => ({ w with files }, some e)

/-- The arguments of `revealLine`: a line, and the place where it is to appear. -/
def revealArguments : List String → Except HostError (Nat × ViewPlace)
  | [] => .error .missingLine
  | line :: rest =>
    match Numeral.read line.toList with
    | .error e => .error (.badLine e)
    | .ok n =>
      let name := rest.headD "center"
      match ViewPlace.ofName? name with
      | none => .error (.unknownPlace name)
      | some place => .ok (n, place)

/-- Run the host command `name`. -/
def runNamed (name : String) (arguments : List String) : Workspace × Option HostError :=
  if name = "undo" then ({ w with buffer := w.buffer.undo.2 }, none)
  else if name = "redo" then ({ w with buffer := w.buffer.redo.2 }, none)
  else if name = "revealLine" then
    match revealArguments arguments with
    | .error e => (w, some e)
    | .ok (n, place) => ({ w with buffer := w.buffer.scrollLineTo n place }, none)
  else if name = "write" then
    match w.save with
    | (w', none) => (w', none)
    | (w', some e) => (w', some (.store e))
  else (w, some (.unknownCommand name))

/-- Run host commands in order, up to the first that fails. -/
def runBound : List String → Workspace → Workspace × Option HostError
  | [], w => (w, none)
  | name :: names, w =>
    match w.runNamed name [] with
    | (w', none) => runBound names w'
    | (w', some e) => (w', some (.bound name e))

end Workspace

end ModalEditor
