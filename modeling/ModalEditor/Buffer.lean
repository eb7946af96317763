import ModalEditor.Files.Path
import ModalEditor.History
import ModalEditor.Text.Document

/-!
# Buffers

A `Buffer` is the document being edited with all that belongs to it: the undo history, the
clipboard, the file it is saved to, and the part of it on view.  `Buffer.edit` is the one way in
which a text changes, apart from going back and forth in the history; it records the document
before the change.
-/

namespace ModalEditor

/-- The shape of the cursor. -/
inductive CursorStyle where
  | block
  | line
deriving DecidableEq, Repr

/-- Where copied text is shared. -/
inductive Clipboard where
  /-- A clipboard of the buffer's own. -/
  | memory (text : Option (List Char))
  /-- A clipboard that cannot be reached: what is written is lost, and nothing is read. -/
  | unreachable
deriving DecidableEq, Repr

namespace Clipboard

/-- The text on the clipboard. -/
def read : Clipboard → Option (List Char)
  | memory text => text
  | unreachable => none

/-- Put `text` on the clipboard. -/
def write (text : List Char) : Clipboard → Clipboard
  | memory _ => memory (some text)
  | unreachable => unreachable

end Clipboard

/-- Where in the view a line is to appear. -/
inductive ViewPlace where
  | center
  | top
  | bottom
deriving DecidableEq, Repr

/-! ### Sizes

A view can be asked for in any height that is a number of 64 bits, and the line after it need not
have such a number.  Sums of sizes that reach `UInt64.size` start again at zero, and differences
below zero go on down from there. -/

namespace Size

/-- The sum of two sizes. -/
def add (m n : Nat) : Nat := (m + n) % UInt64.size

/-- The difference of two sizes. -/
def sub (m n : Nat) : Nat := if n ≤ m then m - n else m + UInt64.size - n

variable {m n : Nat}

theorem add_of_lt (h : m + n < UInt64.size) : add m n = m + n := Nat.mod_eq_of_lt h

theorem add_lt_of_size_le (hm : m < UInt64.size) (hn : n < UInt64.size) (h : UInt64.size ≤ m + n) :
    add m n < m := by
  rw [add, Nat.mod_eq_sub_mod h, Nat.mod_eq_of_lt (by omega)]
  omega

theorem sub_of_le (h : n ≤ m) : sub m n = m - n := if_pos h

theorem sub_of_lt (h : m < n) : sub m n = m + UInt64.size - n := if_neg (Nat.not_le.2 h)

end Size

/-! ### Buffers -/

/-- A document under edit. -/
structure Buffer where
  document : Document := {}
  history : History Document := { limit := 50 }
  clipboard : Clipboard := .memory none
  /-- The file the buffer is saved to. -/
  path : Option Path := none
  /-- There are changes that are not saved. -/
  dirty : Bool := false
  /-- The first line on view. -/
  scrollTop : Nat := 0
  /-- The number of lines on view. -/
  viewportHeight : Nat := 24
  cursorStyle : CursorStyle := .block

namespace Buffer

/-- A buffer holding `text`. -/
def ofText (text : List Char) : Buffer := { document := .ofText text }

variable (b : Buffer)

/-- The lines of the text. -/
def lines : Lines := b.document.lines

/-- The whole text. -/
def text : List Char := b.document.text

/-- The selection. -/
def selection : Selection := b.document.selection

/-- The active end of the selection. -/
def cursor : Position := b.document.cursor

/-- The cursor, moved into the text. -/
def clampedCursor : Position := b.lines.clamp b.cursor

/-- The same buffer with an empty history that keeps `limit` steps. -/
def withUndoLimit (limit : Nat) : Buffer := { b with history := { limit } }

/-! ### Selection and view -/

/-- Select, with both ends moved into the text. -/
def select (s : Selection) : Buffer := { b with document := b.document.select s }

/-- Place the cursor, selecting nothing. -/
def setCursor (p : Position) : Buffer := b.select (.caret p)

/-- The first line on view after scrolling as little as needed to bring line `n` on view. -/
def topRevealing (n : Nat) : Nat :=
  let height := max b.viewportHeight 1
  if n < b.scrollTop then n
  else if Size.add b.scrollTop height ≤ n then Size.sub (n + 1) height
  else b.scrollTop

/-- Scroll as little as needed to bring line `n` on view. -/
def revealLine (n : Nat) : Buffer := { b with scrollTop := b.topRevealing n }

/-- Scroll as little as needed to bring the cursor on view. -/
def revealCursor : Buffer := b.revealLine b.cursor.line

/-- Change the number of lines on view, keeping the cursor on view. -/
def setViewportHeight (height : Nat) : Buffer :=
  { b with viewportHeight := max height 1 }.revealCursor

/-- Scroll so that line `n` appears at a given place. -/
def scrollLineTo (n : Nat) (place : ViewPlace) : Buffer :=
  let n := min n b.lines.lastLine
  let height := max b.viewportHeight 1
  { b with
    scrollTop :=
      match place with
      | .center => n - height / 2
      | .top => n
      | .bottom => n + 1 - height }

/-! ### Changes -/

/-- Carry out edits as one change. -/
def edit (es : List Edit) : Buffer :=
  if es.isEmpty then b
  else
    { b with
      history := b.history.checkpoint b.document
      document := b.document.applyAll es
      dirty := true }

/-- Erase the character before the cursor; at the start of a line, join it to the line before. -/
def backspace : Buffer :=
  let stop := b.clampedCursor
  if 0 < stop.column then
    b.edit [.erase (.between ⟨stop.line, stop.column - 1⟩ stop)]
  else if 0 < stop.line then
    b.edit [.erase (.between (b.lines.lineEnd (stop.line - 1)) stop)]
  else b

/-- Type `text` at the cursor and move the cursor past it. -/
def typeText (text : List Char) : Buffer :=
  let p := b.cursor
  (b.edit [.insert p text]).setCursor (p.advance text)

/-! ### History -/

/-- Bring back a document of the history. -/
def restore (d : Document) (history : History Document) : Buffer :=
  { b with document := d, history, dirty := true }.revealCursor

/-- Go back one step, and tell whether there was one. -/
def undo : Bool × Buffer :=
  match b.history.undo b.document with
  | (some d, history) => (true, b.restore d history)
  | (none, history) => (false, { b with history })

/-- Go forward one step, and tell whether there was one. -/
def redo : Bool × Buffer :=
  match b.history.redo b.document with
  | (some d, history) => (true, b.restore d history)
  | (none, history) => (false, { b with history })

/-- Begin a group of changes that undo together. -/
def beginUndoGroup : Buffer := { b with history := b.history.beginGroup }

/-- End the group of changes. -/
def endUndoGroup : Buffer := { b with history := b.history.endGroup }

end Buffer

end ModalEditor
