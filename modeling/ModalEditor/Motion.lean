import ModalEditor.Text.Characters
import ModalEditor.Text.Lines

/-!
# Motions

A motion leads from a place of a text to another place.  `Motion.target` are the motions that need
nothing more; `Search.target` look for a character on the line; `Lines.inner` is the text object
between two delimiters.  No motion fails: at an edge of the text it stays.

Words are told apart by the class of their characters (`CharClass`): a run of word characters is a
word, and so is a run of separators.
-/

namespace ModalEditor

/-- The class of a character, for the motions over words. -/
inductive CharClass where
  | blank
  | punctuation
  | word
deriving DecidableEq, Repr

namespace CharClass

/-- The class of `c` where `separators` form words of their own. -/
def of (separators : List Char) (c : Char) : CharClass :=
  if isBlank c then blank else if separators.contains c then punctuation else word

/-- A word of the line `l` starts at index `i`. -/
def IsWordStart (separators l : List Char) (i : Nat) : Prop :=
  ∃ c, l[i]? = some c ∧ of separators c ≠ blank ∧
    (i = 0 ∨ ∃ d, l[i - 1]? = some d ∧ of separators d ≠ of separators c)

end CharClass

namespace Lines

variable (ls : Lines) (separators : List Char)

/-- The line `count` below `n`, or the last one. -/
def down (p : Position) (count : Nat) : Position :=
  let n := min (p.line + count) ls.lastLine
  ⟨n, min p.column (ls.lineLength n)⟩

/-- The line `count` above `n`, or the first one. -/
def up (p : Position) (count : Nat) : Position :=
  let n := min p.line ls.lastLine - count
  ⟨n, min p.column (ls.lineLength n)⟩

/-- How far the next word starts from the front of `l`, counting the rest of the word there. -/
def wordGap (l : List Char) : Nat :=
  let rest :=
    match l with
    | [] => []
    | c :: _ =>
      if CharClass.of separators c = CharClass.blank then l
      else l.dropWhile fun d => CharClass.of separators d = CharClass.of separators c
  l.length - (rest.dropWhile isBlank).length

/-- The start of the next word; after the last word of a line, the first character of the next
line that is not blank. -/
def nextWord (p : Position) : Position :=
  let p := ls.clamp p
  let i := p.column + wordGap separators ((ls.line p.line).drop p.column)
  if i < ls.lineLength p.line then ⟨p.line, i⟩
  else if p.line < ls.lastLine then
    ⟨p.line + 1, ((ls.line (p.line + 1)).takeWhile isBlank).length⟩
  else ls.lineEnd p.line

/-- The start of the last word of `l`. -/
def lastWordStart (l : List Char) : Nat :=
  match l.reverse.dropWhile isBlank with
  | [] => 0
  | c :: rest =>
    (rest.dropWhile fun d => CharClass.of separators d = CharClass.of separators c).length

/-- The start of the word before `p`; from the start of a line, the last word of the line
before. -/
def previousWord (p : Position) : Position :=
  let p := ls.clamp p
  if 0 < p.column then
    ⟨p.line, lastWordStart separators ((ls.line p.line).take p.column)⟩
  else if 0 < p.line then ⟨p.line - 1, lastWordStart separators (ls.line (p.line - 1))⟩
  else p

/-! ### Searching a line -/

/-- The first index from `start` on that holds `c`. -/
def indexFrom? (l : List Char) (c : Char) (start : Nat) : Option Nat :=
  ((l.drop start).findIdx? (· == c)).map (start + ·)

/-- The last index before `stop` that holds `c`. -/
def lastIndexBefore? (l : List Char) (c : Char) (stop : Nat) : Option Nat :=
  let front := l.take stop
  (front.reverse.findIdx? (· == c)).map (front.length - 1 - ·)

/-- The next `c` on the line of `p`. -/
def findForward (p : Position) (c : Char) : Position :=
  let p := ls.clamp p
  match indexFrom? (ls.line p.line) c (p.column + 1) with
  | some i => ⟨p.line, i⟩
  | none => p

/-- The previous `c` on the line of `p`. -/
def findBackward (p : Position) (c : Char) : Position :=
  let p := ls.clamp p
  match lastIndexBefore? (ls.line p.line) c p.column with
  | some i => ⟨p.line, i⟩
  | none => p

/-- The delimiters named by `c`: a pair of brackets, or `c` on both sides. -/
def delimiters (c : Char) : Char × Char :=
  if c = '(' ∨ c = ')' then ('(', ')')
  else if c = '[' ∨ c = ']' then ('[', ']')
  else if c = '\x7b' ∨ c = '\x7d' then ('\x7b', '\x7d')
  else if c = '<' ∨ c = '>' then ('<', '>')
  else (c, c)

/-- The text between two delimiters around `p` on its line.  A bracket under the cursor counts, a
quote under it does not; without delimiters on both sides the span is empty. -/
def inner (p : Position) (c : Char) : Span :=
  let p := ls.clamp p
  let l := ls.line p.line
  let cursor := min p.column (l.length - 1)
  let (opening, closing) := delimiters c
  let own := if opening = closing then 0 else 1
  match lastIndexBefore? l opening (cursor + own), indexFrom? l closing (cursor + 1 - own) with
  | some i, some j => .between ⟨p.line, i + 1⟩ ⟨p.line, j⟩
  | _, _ => .point p

end Lines

/-- The motions that need no argument. -/
inductive Motion where
  | left
  | right
  | up
  | down
  | pageUp
  | pageDown
  | lineStart
  | lineEnd
  | nextWord
  | previousWord
deriving DecidableEq, Repr

namespace Motion

/-- The number of lines in a page. -/
def pageLines : Nat := 20

/-- Where the motion leads from `p`. -/
def target (m : Motion) (ls : Lines) (separators : List Char) (p : Position) : Position :=
  match m with
  | left => let p := ls.clamp p; ⟨p.line, p.column - 1⟩
  | right => let p := ls.clamp p; ⟨p.line, min (p.column + 1) (ls.lineLength p.line)⟩
  | up => ls.up p 1
  | down => ls.down p 1
  | pageUp => ls.up p pageLines
  | pageDown => ls.down p pageLines
  | lineStart => ⟨(ls.clamp p).line, 0⟩
  | lineEnd => ls.lineEnd (ls.clamp p).line
  | nextWord => ls.nextWord separators p
  | previousWord => ls.previousWord separators p

end Motion

/-- The motions to a given character. -/
inductive Search where
  | forward
  | backward
deriving DecidableEq, Repr

namespace Search

/-- Where the search for `c` leads from `p`. -/
def target (s : Search) (ls : Lines) (p : Position) (c : Char) : Position :=
  match s with
  | forward => ls.findForward p c
  | backward => ls.findBackward p c

end Search

end ModalEditor
