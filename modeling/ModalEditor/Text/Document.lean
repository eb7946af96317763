import ModalEditor.Text.Lines

/-!
# Documents and their edits

A `Document` is a text with a selection.  An edit changes the text and carries both ends of the
selection along: text typed at an end pushes it right, and an end inside an erased stretch falls
back to the start of the stretch.

Edits are given by positions that may lie outside the text; they are moved inside first.
-/

namespace ModalEditor

/-- A single change of a text. -/
inductive Edit where
  | insert (place : Position) (text : List Char)
  | erase (span : Span)
  | replace (span : Span) (text : List Char)
deriving DecidableEq, Repr

namespace Position

/-- Where `p` goes when `text` is inserted at `q`. -/
def shiftInsert (p q : Position) (text : List Char) : Position :=
  if p < q then p
  else
    let stop := q.advance text
    if p.line = q.line then ⟨stop.line, stop.column + (p.column - q.column)⟩
    else ⟨p.line + (stop.line - q.line), p.column⟩

/-- Where `p` goes when the text from `start` to `stop` is erased. -/
def shiftErase (p start stop : Position) : Position :=
  if p ≤ start then p
  else if p ≤ stop then start
  else if p.line = stop.line then ⟨start.line, start.column + (p.column - stop.column)⟩
  else ⟨p.line - (stop.line - start.line), p.column⟩

end Position

namespace Lines

variable (ls : Lines)

/-- Insert `text` at a place of the text. -/
def insertAt (p : Position) (text : List Char) : Lines :=
  let l := ls.line p.line
  ls.take p.line ++ ofText (l.take p.column ++ text ++ l.drop p.column) ++ ls.drop (p.line + 1)

/-- Erase the text between two places of the text. -/
def eraseBetween (start stop : Position) : Lines :=
  ls.take start.line ++
    [(ls.line start.line).take start.column ++ (ls.line stop.line).drop stop.column] ++
    ls.drop (stop.line + 1)

end Lines

/-- A text and the selection in it. -/
structure Document where
  lines : Lines := [[]]
  selection : Selection := .caret .origin
deriving DecidableEq, Repr, Inhabited

namespace Document

/-- The document holding `text`, with the cursor at its start. -/
def ofText (text : List Char) : Document := { lines := .ofForeignText text }

variable (d : Document)

/-- The whole text. -/
def text : List Char := d.lines.text

/-- The active end of the selection. -/
def cursor : Position := d.selection.active

/-- The text is made of lines, and both ends of the selection lie in it. -/
def WellFormed : Prop :=
  d.lines.WellFormed ∧ d.lines.InRange d.selection.anchor ∧ d.lines.InRange d.selection.active

/-- Select, with both ends moved into the text. -/
def select (s : Selection) : Document := { d with selection := s.map d.lines.clamp }

/-- Insert `text` at `p`. -/
def insert (p : Position) (text : List Char) : Document :=
  let p := d.lines.clamp p
  { lines := d.lines.insertAt p text
    selection := d.selection.map fun q => q.shiftInsert p text }

/-- Erase a span. -/
def erase (s : Span) : Document :=
  let start := d.lines.clamp s.start
  let stop := d.lines.clamp s.stop
  if stop ≤ start then d
  else
    { lines := d.lines.eraseBetween start stop
      selection := d.selection.map fun p => p.shiftErase start stop }

/-- Carry out one edit. -/
def apply : Edit → Document
  | .insert p text => d.insert p text
  | .erase s => d.erase s
  | .replace s text => (d.erase s).insert s.start text

/-- Carry out edits in order; each one sees the text left by those before it. -/
def applyAll (es : List Edit) : Document := es.foldl Document.apply d

end Document

end ModalEditor
