import ModalEditor.Editor
import ModalEditor.Screen.Cell

/-!
# Frames

A frame shows an editor on a screen: the text with line numbers, selection and cursor, below it
the status line, and last the message.  On a low screen the message goes first and then the status
line.  Drawing a frame fixes how many lines are on view, so that the cursor is among them.
-/

namespace ModalEditor

namespace Style

/-- The text. -/
def plain : Style := { foreground := .white }

/-- Selected text. -/
def selected : Style := { plain with background := .rgb 68 71 90 }

/-- Line numbers. -/
def gutter : Style := { foreground := .darkGray }

/-- The status line. -/
def status : Style := { foreground := .gray, background := .rgb 40 42 54 }

/-- The character under the cursor. -/
def cursor : CursorStyle → Style
  | .block => { plain with reversed := true }
  | .line => { plain with underlined := true }

/-- The badge that shows the mode. -/
def badge (e : Editor) : Style :=
  { foreground := .rgb 40 42 54
    background :=
      if !e.enabled then .darkGray
      else
        match e.mode with
        | .normal => .blue
        | .insert => .green
        | .visual => .magenta
    bold := true }

/-- A message. -/
def message : Severity → Style
  | .error => { foreground := .red }
  | .warning => { foreground := .yellow }
  | .info => { foreground := .cyan }

end Style

/-! ### The text -/

namespace Buffer

/-- The width of the line numbers and the space after them, in a text of `count` lines. -/
def gutterWidth (count : Nat) : Nat := max (toString (max count 1)).length 3 + 1

/-- A line number, aligned to the right. -/
def gutterText (count n : Nat) : List Char :=
  let digits := (toString (n + 1)).toList
  List.replicate (gutterWidth count - 1 - digits.length) ' ' ++ digits ++ [' ']

/-- `p` is drawn as selected in a line of `length` characters.  The place after a line counts if
the selection goes on in the next line. -/
def isHighlighted (s : Selection) (p : Position) (length : Nat) : Bool :=
  !s.isCaret && s.span.contains p && (p.column != length || p.line < s.span.stop.line)

variable (b : Buffer)

/-- The style of `p` in a line of `length` characters; the place after a line is drawn only if it
is marked. -/
def styleAt? (p : Position) (length : Nat) : Option Style :=
  if p = b.cursor then some (.cursor b.cursorStyle)
  else if isHighlighted b.selection p length then some .selected
  else if p.column = length then none
  else some .plain

/-- The graphemes that show line `n`.  Each character of the text is drawn by itself, so that each
place can be marked. -/
def lineView (numbered : Bool) (n : Nat) : List Styled :=
  let l := b.lines.line n
  let gutter := if numbered then Row.styled (gutterText b.lines.length n) .gutter else []
  gutter ++ (l ++ [' ']).zipIdx.filterMap fun (c, column) =>
    (b.styleAt? ⟨n, column⟩ l.length).map ([c], ·)

/-- The rows that show the text. -/
def view (numbered : Bool) (width height : Nat) : List Row :=
  (List.range height).map fun i =>
    let n := b.scrollTop + i
    Row.paint .plain width (if n < b.lines.length then b.lineView numbered n else [])

end Buffer

/-! ### Status and message -/

namespace Editor

variable (e : Editor)

/-- The badge of the status line. -/
def statusBadge : String := if e.enabled then " " ++ e.phase.label ++ " " else " OFF "

/-- The left part of the status line: file, unsaved changes, and the keys of an incomplete
command. -/
def statusLeft : String :=
  let name := (e.buffer.path.map Path.text).getD "[No Name]"
  let pending := String.ofList e.phase.pending
  " " ++ name ++ (if e.buffer.dirty then " [+]" else "") ++
    (if pending.isEmpty then "" else "  " ++ pending)

/-- The right part of the status line: the cursor. -/
def statusRight : String := e.buffer.cursor.label ++ " "

/-- The row that shows the status.  The gap in it is measured in characters. -/
def statusView (width : Nat) : Row :=
  let badge := e.statusBadge.toList
  let left := e.statusLeft.toList
  let right := e.statusRight.toList
  let gap := max (width - (badge.length + left.length + right.length)) 1
  Row.paint .status width
    (Row.styled badge (.badge e) ++ Row.styled left .status ++
      Row.styled (List.replicate gap ' ') .status ++ Row.styled right .status)

/-- The row that shows the message. -/
def messageView (width : Nat) : Row :=
  Row.paint .plain width <|
    match e.message with
    | some m => Row.styled m.text.toList (.message m.severity)
    | none => []

/-! ### Layout -/

/-- The number of rows for the text on a screen of `height` rows. -/
def textHeight (height : Nat) : Nat := if 3 ≤ height then height - 2 else min height 1

/-- The editor with its view made for a screen of `height` rows. -/
def fitTo (height : Nat) : Editor := e.mapBuffer fun b => b.setViewportHeight (textHeight height)

/-- The rows of a frame. -/
def frame (width height : Nat) : List Row :=
  e.buffer.view e.config.showLineNumbers width (textHeight height) ++
    (if 2 ≤ height then [e.statusView width] else []) ++
    (if 3 ≤ height then [e.messageView width] else [])

end Editor

end ModalEditor
