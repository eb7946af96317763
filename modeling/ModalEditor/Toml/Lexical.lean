/-!
# The characters of TOML

Blanks, comments and line ends of a document.  A reader takes the text that is left and gives the
text after what it has read; `none` is a syntax error.
-/

namespace ModalEditor

namespace Toml

/-- A space or a tab. -/
def isSpace (c : Char) : Bool := c == ' ' || c == '\t'

/-- Neither a control character nor a tab. -/
def isPrintable (c : Char) : Bool := 0x20 ≤ c.toNat && c.toNat != 0x7F

/-- A character that may stand in comments and on the lines of texts. -/
def isPlain (c : Char) : Bool := isPrintable c || c == '\t'

/-- The text after spaces and tabs. -/
def skipSpaces (s : List Char) : List Char := s.dropWhile isSpace

/-- The text after a line feed, with or without a carriage return before it. -/
def newline? : List Char → Option (List Char)
  | '\n' :: s => some s
  | '\r' :: '\n' :: s => some s
  | _ => none

/-- The text after a comment. -/
def skipComment : List Char → List Char
  | '#' :: s => s.dropWhile isPlain
  | s => s

/-- The text after the rest of a line, on which only spaces and a comment stand. -/
def endLine? (s : List Char) : Option (List Char) :=
  match skipComment (skipSpaces s) with
  | [] => some []
  | s => newline? s

/-- The text after blank lines and comments.  `comment` tells whether a comment has begun. -/
def skipLinesFrom : (comment : Bool) → List Char → Option (List Char)
  | _, [] => some []
  | _, '\n' :: s => skipLinesFrom false s
  | _, '\r' :: '\n' :: s => skipLinesFrom false s
  | true, c :: s => if isPlain c then skipLinesFrom true s else none
  | false, '#' :: s => skipLinesFrom true s
  | false, c :: s => if isSpace c then skipLinesFrom false s else some (c :: s)

/-- The text after blank lines and comments. -/
def skipLines (s : List Char) : Option (List Char) := skipLinesFrom false s

end Toml

end ModalEditor
