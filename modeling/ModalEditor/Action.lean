import ModalEditor.Command.Plan

/-!
# Actions

What each operator does to the editor.  Actions that change the text go through `Buffer.edit`, and
those that move the cursor through `Editor.moveTo`, which keeps a visual selection in step.

`Action.run` runs the action of a plan.  Only host commands can fail; what they did before the
failure stays.
-/

namespace ModalEditor

namespace Editor

variable (e : Editor)

/-- Change the text. -/
def edit (es : List Edit) : Editor := e.mapBuffer fun b => b.edit es

/-- Place the cursor, selecting nothing. -/
def setCursor (p : Position) : Editor := e.mapBuffer fun b => b.setCursor p

/-! ### Moving and scrolling -/

/-- Move the cursor by a motion. -/
def move (m : Motion) : Editor :=
  e.moveTo (m.target e.lines e.separators e.buffer.clampedCursor)

/-- Move the cursor to a character on its line. -/
def search (s : Search) (argument : Option Char) : Editor :=
  match argument with
  | none => e
  | some c => e.moveTo (s.target e.lines e.buffer.clampedCursor c)

/-- The place where `z` and a letter bring the cursor line. -/
def viewPlace? (c : Char) : Option ViewPlace :=
  if c = 'z' then some .center
  else if c = 't' then some .top
  else if c = 'b' then some .bottom
  else none

/-- Bring the cursor line to a place in the view. -/
def scroll (argument : Option Char) : Editor :=
  match argument.bind viewPlace? with
  | none => e
  | some place => e.mapBuffer fun b => b.scrollLineTo b.clampedCursor.line place

/-! ### Entering modes -/

/-- Insert before the cursor. -/
def insertBefore : Editor := e.resumeNormal.enterInsert

/-- Insert after the cursor. -/
def insertAfter : Editor := (e.resumeNormal.move .right).enterInsert

/-- Insert at the start of the line. -/
def insertLineStart : Editor := (e.resumeNormal.move .lineStart).enterInsert

/-- Insert at the end of the line. -/
def insertLineEnd : Editor := (e.resumeNormal.move .lineEnd).enterInsert

/-- Insert on a new line below. -/
def openBelow : Editor :=
  let e := e.resumeNormal
  let n := e.buffer.clampedCursor.line
  ((e.edit [.insert (e.lines.lineEnd n) ['\n']]).setCursor ⟨n + 1, 0⟩).enterInsert

/-- Insert on a new line above. -/
def openAbove : Editor :=
  let e := e.resumeNormal
  let n := e.buffer.clampedCursor.line
  ((e.edit [.insert ⟨n, 0⟩ ['\n']]).setCursor ⟨n, 0⟩).enterInsert

/-- Enter visual mode or switch its kind; in visual mode of the same kind, leave it. -/
def toggleVisual (lineWise : Bool) : Editor :=
  if e.mode = .visual ∧ e.phase.isLineWise = lineWise then e.resumeNormal
  else e.enterVisual lineWise

/-! ### Single characters and pasting -/

/-- The span of the character under the cursor. -/
def cursorChar? : Option Span :=
  let p := e.buffer.clampedCursor
  if p.column < e.lines.lineLength p.line then some (.between p ⟨p.line, p.column + 1⟩) else none

/-- Delete the character under the cursor into the register. -/
def deleteChar : Editor :=
  match e.cursorChar? with
  | none => e
  | some s =>
    ((e.store (.take (e.lines.slice s) false)).edit [.erase s]).setCursor s.start

/-- Replace the character under the cursor. -/
def replaceChar (argument : Option Char) : Editor :=
  match argument, e.cursorChar? with
  | some c, some s => (e.edit [.replace s [c]]).setCursor s.start
  | _, _ => e

/-- Paste.  Whole lines go below or above the cursor line, other text goes before the cursor. -/
def paste (after : Bool) : Editor :=
  match e.pasteContent with
  | none => e
  | some content =>
    let p := e.buffer.clampedCursor
    if content.lineWise then
      if after then
        (e.edit [.insert (e.lines.lineEnd p.line) ('\n' :: content.text)]).setCursor
          ⟨p.line + 1, 0⟩
      else (e.edit [.insert ⟨p.line, 0⟩ (content.text ++ ['\n'])]).setCursor ⟨p.line, 0⟩
    else (e.edit [.insert p content.text]).setCursor (p.advance content.text)

/-! ### Ranges -/

/-- The text that a target puts in the register. -/
def clipping (t : Target) : Clipping :=
  .take (if t.lineWise then Lines.text (t.lineNumbers.map e.lines.line) else e.lines.slice t.span)
    t.lineWise

/-- Delete into the register. -/
def delete (t : Target) : Editor :=
  if t.span.isEmpty then e
  else
    let e := (e.store (e.clipping t)).edit [.erase t.span]
    e.setCursor (if t.lineWise then ⟨min t.first e.lines.lastLine, 0⟩ else t.span.start)

/-- Copy into the register. -/
def yank (t : Target) : Editor :=
  if t.span.isEmpty then e
  else
    let e := e.store (e.clipping t)
    if !t.lineWise ∧ e.mode = .normal then e.setCursor t.span.start else e

/-- Delete into the register and insert instead.  Of whole lines one empty line stays. -/
def change (t : Target) : Editor :=
  let s := if t.lineWise then Span.between ⟨t.first, 0⟩ (e.lines.lineEnd t.last) else t.span
  let e := if t.span.isEmpty then e else e.store (e.clipping t)
  let e := if s.isEmpty then e else e.edit [.erase s]
  (e.resumeNormal.setCursor s.start).enterInsert

/-- In normal mode, place the cursor at the first character of line `n` that is not blank. -/
def landOnText (n : Nat) : Editor :=
  if e.mode = .normal then e.setCursor ⟨n, ((e.lines.line n).takeWhile isBlank).length⟩ else e

/-- Put one step of indentation in front of every line that is not empty. -/
def indent (t : Target) : Editor :=
  let step := List.replicate e.config.indentWidth ' '
  let filled := t.lineNumbers.filter fun n => 0 < e.lines.lineLength n
  (e.edit (filled.map fun n => .insert ⟨n, 0⟩ step)).landOnText t.first

/-- The length of the indentation that one step back takes from the line `l`: a tab, or spaces up
to the width of a step. -/
def indentation (width : Nat) (l : List Char) : Nat :=
  if l.head? = some '\t' then 1 else ((l.take width).takeWhile (· == ' ')).length

/-- Take one step of indentation from every line. -/
def dedent (t : Target) : Editor :=
  let strip n := indentation e.config.indentWidth (e.lines.line n)
  let indented := t.lineNumbers.filter fun n => 0 < strip n
  (e.edit (indented.map fun n => .erase (.between ⟨n, 0⟩ ⟨n, strip n⟩))).landOnText t.first

/-! ### Host commands -/

/-- Run host commands in order, up to the first that fails. -/
def runBound (names : List String) : Editor × Option HostError :=
  let (w, failure) := e.toWorkspace.runBound names
  ({ e with toWorkspace := w }, failure)

end Editor

/-- Run the action of a plan, where `replay` runs the last repeatable command again. -/
def Action.run (replay : Editor → Editor) (p : Plan) (e : Editor) : Editor × Option HostError :=
  match p.operator.action with
  | move m => (e.move m, none)
  | search s => (e.search s p.argument, none)
  | scroll => (e.scroll p.argument, none)
  | insertBefore => (e.insertBefore, none)
  | insertAfter => (e.insertAfter, none)
  | insertLineStart => (e.insertLineStart, none)
  | insertLineEnd => (e.insertLineEnd, none)
  | openBelow => (e.openBelow, none)
  | openAbove => (e.openAbove, none)
  | visual lineWise => (e.toggleVisual lineWise, none)
  | deleteChar => (e.deleteChar, none)
  | pasteAfter => (e.paste true, none)
  | pasteBefore => (e.paste false, none)
  | delete => (e.delete p.target, none)
  | yank => (e.yank p.target, none)
  | change => (e.change p.target, none)
  | indent => (e.indent p.target, none)
  | dedent => (e.dedent p.target, none)
  | replaceChar => (e.replaceChar p.argument, none)
  | repeatLast => (replay e, none)
  | hostCommands names => e.runBound names

end ModalEditor
