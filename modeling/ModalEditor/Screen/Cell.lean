import ModalEditor.Screen.Width

/-!
# Cells

A screen is made of cells, each with a symbol and a style.  `Row.paint` lays styled graphemes out
in a row of cells: what does not fit is cut off, and what is left over is filled.
-/

namespace ModalEditor

/-- A color of the terminal. -/
inductive Color where
  | reset
  | white
  | gray
  | darkGray
  | red
  | green
  | yellow
  | blue
  | magenta
  | cyan
  | rgb (red green blue : Nat)
deriving DecidableEq, Repr

namespace Color

/-- The name of a color. -/
def name : Color → String
  | reset => "Reset"
  | white => "White"
  | gray => "Gray"
  | darkGray => "DarkGray"
  | red => "Red"
  | green => "Green"
  | yellow => "Yellow"
  | blue => "Blue"
  | magenta => "Magenta"
  | cyan => "Cyan"
  | rgb r g b => s!"rgb({r},{g},{b})"

end Color

/-- How a cell is drawn. -/
structure Style where
  foreground : Color := .reset
  background : Color := .reset
  bold : Bool := false
  underlined : Bool := false
  reversed : Bool := false
deriving DecidableEq, Repr

namespace Style

/-- A style in short: the colors, and a letter for each modifier. -/
def name (s : Style) : String :=
  s.foreground.name ++ "/" ++ s.background.name ++ "/" ++ (if s.bold then "B" else "") ++
    (if s.underlined then "U" else "") ++ (if s.reversed then "R" else "")

end Style

/-- A cell of the screen. -/
structure Cell where
  symbol : Grapheme := [' ']
  style : Style := {}
deriving DecidableEq, Repr

/-- A grapheme with the style it is to be drawn in. -/
abbrev Styled := Grapheme × Style

/-- A row of cells. -/
abbrev Row := List Cell

namespace Row

/-- Give all graphemes of a text one style. -/
def styled (text : List Char) (style : Style) : List Styled :=
  (Grapheme.ofText text).map fun g => (g, style)

/-- The cells behind the first of a grapheme of `width` cells.  The second one is left as it is,
and the others are cleared. -/
def coveredCells (base : Style) (width : Nat) : Row :=
  match width with
  | 0 | 1 => []
  | n + 2 => {} :: List.replicate n { style := base }

/-- The cells of the graphemes that fit into `room` of `width` cells.  A grapheme that does not
fit ends the row, unless it is too wide for any row; line feeds and graphemes without width are
passed over. -/
def fill (base : Style) (width : Nat) : (room : Nat) → List Styled → Row
  | _, [] => []
  | room, (g, style) :: gs =>
    let w := g.width
    if g = ['\n'] ∨ w = 0 ∨ width < w then fill base width room gs
    else if room < w then []
    else ⟨g, style⟩ :: coveredCells base w ++ fill base width (room - w) gs

/-- Lay graphemes out in a row of `width` cells of style `base`. -/
def paint (base : Style) (width : Nat) (gs : List Styled) : Row :=
  let row := fill base width width gs
  row ++ List.replicate (width - row.length) { style := base }

/-- The symbols of a row. -/
def text (r : Row) : List Char := r.flatMap Cell.symbol

/-- The styles of a row, each with the number of cells in a row that have it. -/
def runs : Row → List (Nat × Style)
  | [] => []
  | c :: cs =>
    match runs cs with
    | (n, s) :: rest => if s = c.style then (n + 1, s) :: rest else (1, c.style) :: (n, s) :: rest
    | [] => [(1, c.style)]

end Row

end ModalEditor
