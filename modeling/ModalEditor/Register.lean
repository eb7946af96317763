/-!
# The register

Deleting and yanking fill the one register, and pasting reads it.  A `Clipping` is a piece of
text together with the way it was taken: by characters, or as whole lines.

On a clipboard a line-wise clipping is marked by a leading record separator (`Clipping.encode`),
so that text read back (`Clipping.decode`) pastes the way it was taken.
-/

namespace ModalEditor

/-- A piece of text taken out of a buffer. -/
structure Clipping where
  text : List Char
  /-- Taken as whole lines. -/
  lineWise : Bool
deriving DecidableEq, Repr

namespace Clipping

/-- Marks line-wise text on a clipboard. -/
def marker : Char := '\x1e'

/-- Whether `c` can end a line. -/
def isLineBreak (c : Char) : Bool := c == '\n' || c == '\r'

/-- Text taken from a buffer.  Whole lines lose the line breaks at their end. -/
def take (text : List Char) (lineWise : Bool) : Clipping :=
  { text := if lineWise then (text.reverse.dropWhile isLineBreak).reverse else text
    lineWise }

/-- The text put on a clipboard. -/
def encode (c : Clipping) : List Char := if c.lineWise then marker :: c.text else c.text

/-- What text found on a clipboard stands for. -/
def decode : List Char → Clipping
  | [] => ⟨[], false⟩
  | c :: cs => if c = marker then take cs true else ⟨c :: cs, false⟩

/-- Pasting would change nothing. -/
def isEmpty (c : Clipping) : Bool := c.text.isEmpty && !c.lineWise

end Clipping

end ModalEditor
