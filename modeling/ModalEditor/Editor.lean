import ModalEditor.Command
import ModalEditor.Command.Reader
import ModalEditor.Register
import ModalEditor.Workspace

/-!
# Editors

An `Editor` is a workspace with everything that is remembered between two keys: the settings, the
phase, the register, the last repeatable commands and a message for the user.

A `Phase` is a mode together with what the mode needs: in every mode the keys of an incomplete
command, or of the escape sequence, and in visual mode the anchor of the selection.  Phases change
through `enterNormal`, `enterInsert`, `enterVisual` and `resumeNormal`, which keep the selection
and the cursor style in step.
-/

namespace ModalEditor

/-- How serious a message is. -/
inductive Severity where
  | info
  | warning
  | error
deriving DecidableEq, Repr

/-- A message for the user. -/
structure Message where
  text : String
  severity : Severity
deriving DecidableEq, Repr

/-- A mode and its state. -/
inductive Phase where
  | normal (reading : NormalReader)
  | insert (typed : EscapeReader)
  /-- The selection runs from `anchor`, or covers whole lines. -/
  | visual (anchor : Position) (lineWise : Bool) (reading : VisualReader)
deriving DecidableEq, Repr

namespace Phase

/-- The mode of a phase. -/
def mode : Phase → Mode
  | normal _ => .normal
  | insert _ => .insert
  | visual .. => .visual

/-- The fixed end of the selection in visual mode. -/
def anchor? : Phase → Option Position
  | visual anchor _ _ => some anchor
  | _ => none

/-- The selection covers whole lines. -/
def isLineWise : Phase → Bool
  | visual _ lineWise _ => lineWise
  | _ => false

/-- The keys of a command that is not complete. -/
def pending : Phase → List Char
  | normal reading => reading.pending
  | insert _ => []
  | visual _ _ reading => reading.pending

/-- The phase without the keys read so far. -/
def dropPending : Phase → Phase
  | normal _ => normal .initial
  | insert _ => insert .initial
  | visual anchor lineWise _ => visual anchor lineWise .initial

/-- The name of the mode as shown to the user. -/
def label (p : Phase) : String := p.mode.label p.isLineWise

end Phase

/-- A workspace under a modal keyboard. -/
structure Editor extends Workspace where
  config : Config := {}
  /-- Keys are interpreted; otherwise they are text. -/
  enabled : Bool := true
  phase : Phase := .normal .initial
  register : Option Clipping := none
  slots : RepeatSlots := {}
  message : Option Message := none

namespace Editor

variable (e : Editor)

/-- An editor of a workspace. -/
def ofWorkspace (w : Workspace) (config : Config) : Editor := { w with config }

/-- The current mode. -/
def mode : Mode := e.phase.mode

/-- Change the buffer. -/
def mapBuffer (f : Buffer → Buffer) : Editor := { e with buffer := f e.buffer }

/-- The lines of the text. -/
def lines : Lines := e.buffer.lines

/-- The separators of words. -/
def separators : List Char := e.config.wordSeparators.toList

/-- The escape sequence. -/
def escape : List Char := e.config.escapeSequence.toList

/-! ### Messages -/

/-- Show a message. -/
def say (text : String) (severity : Severity) : Editor :=
  { e with message := some { text, severity } }

/-- Show that a host command failed. -/
def report (cause : HostError) : Editor := e.say cause.message .error

/-- Take the message away. -/
def clearMessage : Editor := { e with message := none }

/-! ### Modes -/

/-- Forget the keys of an incomplete command. -/
def dropPending : Editor := { e with phase := e.phase.dropPending }

/-- The selection that a cursor at `p` gives in the current phase.  A line-wise selection covers
the lines from the anchor to `p`, with the cursor at its far end. -/
def selectionAt (p : Position) : Selection :=
  match e.phase with
  | .visual anchor true _ =>
    if p.line < anchor.line then ⟨e.lines.lineEnd anchor.line, ⟨p.line, 0⟩⟩
    else ⟨⟨anchor.line, 0⟩, e.lines.lineEnd p.line⟩
  | .visual anchor false _ => ⟨anchor, p⟩
  | _ => .caret p

/-- Move the cursor to `p`, in visual mode extending the selection. -/
def moveTo (p : Position) : Editor :=
  e.mapBuffer fun b => (b.select (e.selectionAt (e.lines.clamp p))).revealCursor

/-- Enter normal mode. -/
def enterNormal : Editor :=
  { e.mapBuffer fun b => { b with cursorStyle := .block } with phase := .normal .initial }

/-- Enter insert mode. -/
def enterInsert : Editor :=
  { e.mapBuffer fun b => { b with cursorStyle := .line } with phase := .insert .initial }

/-- Enter visual mode, or switch between its two kinds.  The anchor is set on entry. -/
def enterVisual (lineWise : Bool) : Editor :=
  let cursor := e.buffer.clampedCursor
  let anchor := e.phase.anchor?.getD (if lineWise then ⟨cursor.line, 0⟩ else cursor)
  { e.mapBuffer fun b => { b with cursorStyle := .block } with
    phase := .visual anchor lineWise .initial }.moveTo cursor

/-- Return to normal mode; a visual selection leaves the cursor at its start. -/
def resumeNormal : Editor :=
  match e.phase with
  | .visual .. => (e.mapBuffer fun b => b.setCursor b.selection.span.start).enterNormal
  | _ => e.enterNormal

/-- Give up an incomplete command and return to normal mode. -/
def forceNormal : Editor := e.resumeNormal.mapBuffer Buffer.endUndoGroup

/-- Switch the interpretation of keys off or on while no buffer is at hand. -/
def toggleDetached : Editor := { e.dropPending with enabled := !e.enabled }

/-- Switch the interpretation of keys off or on.  Keys that are text show as a line cursor. -/
def toggleEnabled : Editor :=
  let e := e.toggleDetached.mapBuffer Buffer.endUndoGroup
  if e.enabled then e.resumeNormal
  else e.mapBuffer fun b => { b with cursorStyle := .line }

/-! ### The register -/

/-- Fill the register, and the clipboard if they are shared. -/
def store (c : Clipping) : Editor :=
  { (if e.config.syncRegister then
      e.mapBuffer fun b => { b with clipboard := b.clipboard.write c.encode }
    else e) with register := some c }

/-- What there is to paste: the text on a shared clipboard, or else the register. -/
def pasteContent : Option Clipping :=
  match e.config.syncRegister, e.buffer.clipboard.read with
  | true, some (c :: cs) => some (.decode (c :: cs))
  | _, _ => e.register

end Editor

end ModalEditor
