import ModalEditor.Position

/-!
# Texts as lines

A text is kept as the list of its lines without their terminators, `Lines`.  A text has at least
one line, and no line holds a line feed (`Lines.WellFormed`); splitting a text at its line feeds
(`Lines.ofText`) and joining the lines again (`Lines.text`) are inverse to each other on such
lists.

Positions may lie outside the text: every operation first moves them inside (`Lines.clamp`).
-/

namespace ModalEditor

/-- The lines of a text, without terminators. -/
abbrev Lines := List (List Char)

namespace Lines

/-- The lines of `text`, which ends each line but the last with a line feed. -/
def ofText (text : List Char) : Lines := text.splitOn '\n'

/-- The text made of the lines. -/
def text (ls : Lines) : List Char := ['\n'].intercalate ls

/-- There is a line, and a line ends where a line feed would stand. -/
def WellFormed (ls : Lines) : Prop := ls ≠ [] ∧ ∀ l ∈ ls, '\n' ∉ l

/-- A line without the carriage return that belongs to its terminator. -/
def dropReturn (l : List Char) : List Char :=
  if l.getLast? = some '\r' then l.dropLast else l

/-- The lines of a text from outside, where a line may also end with carriage return and line
feed. -/
def ofForeignText (text : List Char) : Lines :=
  let ls := ofText text
  ls.dropLast.map dropReturn ++ ls.getLast?.toList

variable (ls : Lines)

/-- Line `n`; lines past the end are empty. -/
def line (n : Nat) : List Char := ls.getD n []

/-- The length of line `n`. -/
def lineLength (n : Nat) : Nat := (ls.line n).length

/-- The number of the last line. -/
def lastLine : Nat := ls.length - 1

/-- The place in the text nearest to `p`. -/
def clamp (p : Position) : Position :=
  let n := min p.line ls.lastLine
  ⟨n, min p.column (ls.lineLength n)⟩

/-- `p` is a place of the text. -/
def InRange (p : Position) : Prop := p.line < ls.length ∧ p.column ≤ ls.lineLength p.line

/-- The place after the last character of line `n`. -/
def lineEnd (n : Nat) : Position := ⟨n, ls.lineLength n⟩

/-- The text from place `p` up to place `q`. -/
def between (p q : Position) : List Char :=
  if p.line = q.line then
    ((ls.line p.line).drop p.column).take (q.column - p.column)
  else
    text ((ls.line p.line).drop p.column ::
      (List.range' (p.line + 1) (q.line - (p.line + 1))).map ls.line ++
      [(ls.line q.line).take q.column])

/-- The text a span covers, its ends moved into the text. -/
def slice (s : Span) : List Char := ls.between (ls.clamp s.start) (ls.clamp s.stop)

/-- Lines `first` to `last` together with one line break: the one after them, or the one before
them at the end of the text, or none when they are the whole text. -/
def wholeLines (first last : Nat) : Span :=
  let last := min last ls.lastLine
  let first := min first last
  if last + 1 < ls.length then .between ⟨first, 0⟩ ⟨last + 1, 0⟩
  else if 0 < first then .between (ls.lineEnd (first - 1)) (ls.lineEnd last)
  else .between ⟨first, 0⟩ (ls.lineEnd last)

/-- The place `n` characters before column `column` of a line; a line break counts as one
character, and the start of the text is never passed. -/
def retreat : (line column n : Nat) → Position
  | 0, column, n => ⟨0, column - n⟩
  | line + 1, column, n =>
    if n ≤ column then ⟨line + 1, column - n⟩
    else retreat line (ls.lineLength line) (n - (column + 1))

/-- The place `n` characters before `p`. -/
def stepBack (p : Position) (n : Nat) : Position :=
  let p := ls.clamp p
  ls.retreat p.line p.column n

end Lines

end ModalEditor
