import ModalEditor.Toml.Document

/-!
# Writing texts in TOML

A text is written in the first form that shows it as it is: in double quotes, in single quotes, in
three double quotes, in three single quotes.  If it needs escapes, it is written with them in
double quotes, in three if it has line feeds.  A key is written bare if it can be.
-/

namespace ModalEditor

namespace Toml

/-- A control character that cannot stand in a text as it is. -/
def isControl (c : Char) : Bool := !isPlain c && c != '\n'

/-- The length of the longest run of `c`. -/
def longestRun (c : Char) (s : List Char) : Nat :=
  (s.foldl (fun (run, longest) d =>
    if d = c then (run + 1, max longest (run + 1)) else (0, longest)) (0, 0)).2

/-- The form in which a text is written. -/
inductive TextForm where
  /-- Between double quotes. -/
  | basic
  /-- Between single quotes. -/
  | literal
  /-- Between three double quotes. -/
  | basicLines
  /-- Between three single quotes. -/
  | literalLines
deriving DecidableEq, Repr

namespace TextForm

/-- The form in which the text `s` is written. -/
def forText (s : List Char) : TextForm :=
  let lines := s.contains '\n'
  let escapes := s.any isControl
  let backslash := s.contains '\\'
  if !escapes && !backslash && !s.contains '"' && !lines then basic
  else if !escapes && !s.contains '\'' && !lines then literal
  else if !escapes && !backslash && longestRun '"' s ≤ 2 then basicLines
  else if !escapes && longestRun '\'' s ≤ 2 then literalLines
  else if lines then basicLines
  else basic

/-- The form in which a key that is not bare is written. -/
def forKey (s : List Char) : TextForm :=
  let escapes := s.any isControl || s.contains '\n'
  if !escapes && !s.contains '\\' && !s.contains '"' then basic
  else if !escapes && !s.contains '\'' then literal
  else basic

end TextForm

/-- A digit in hexadecimal, in capitals. -/
def upperHexDigit (n : Nat) : Char :=
  if n < 10 then Char.ofNat ('0'.toNat + n) else Char.ofNat ('A'.toNat + (n - 10))

/-- A control character between double quotes. -/
def escapeControl (c : Char) : List Char :=
  if c = '\x08' then ['\\', 'b']
  else if c = '\t' then ['\\', 't']
  else if c = '\n' then ['\\', 'n']
  else if c = '\x0c' then ['\\', 'f']
  else if c = '\r' then ['\\', 'r']
  else ['\\', 'u', '0', '0', upperHexDigit (c.toNat / 16), upperHexDigit (c.toNat % 16)]

/-- A text between double quotes. -/
def escapeBasic (s : List Char) : List Char :=
  s.flatMap fun c =>
    if c = '"' then ['\\', '"']
    else if c = '\\' then ['\\', '\\']
    else if isPrintable c then [c]
    else escapeControl c

/-- A text between three double quotes, after `run` double quotes that stand as they are.  Every
third double quote of a run is escaped. -/
def escapeLines (run : Nat) : List Char → List Char
  | [] => []
  | c :: s =>
    if c = '"' then
      if run < 2 then '"' :: escapeLines (run + 1) s else '\\' :: '"' :: escapeLines 0 s
    else if c = '\\' then '\\' :: '\\' :: escapeLines 0 s
    else if isPrintable c || c == '\n' then c :: escapeLines 0 s
    else escapeControl c ++ escapeLines 0 s

/-- A text between three quotes, its lines beginning on a line of their own. -/
def threefold (quote : Char) (s body : List Char) : List Char :=
  let quotes := List.replicate 3 quote
  quotes ++ (if s.contains '\n' then ['\n'] else []) ++ body ++ quotes

/-- A text in a given form. -/
def writeForm (s : List Char) : TextForm → List Char
  | .basic => '"' :: escapeBasic s ++ ['"']
  | .literal => '\'' :: s ++ ['\'']
  | .basicLines => threefold '"' s (escapeLines 0 s)
  | .literalLines => threefold '\'' s s

/-- Write a text. -/
def writeText (s : String) : List Char := writeForm s.toList (.forText s.toList)

/-- Write a key. -/
def writeKey (k : String) : List Char :=
  let s := k.toList
  if !s.isEmpty && s.all isBare then s else writeForm s (.forKey s)

/-- Write a list of texts: in one line if there is at most one, and else each on its own line. -/
def writeTexts : List String → List Char
  | [] => ['[', ']']
  | [s] => '[' :: writeText s ++ [']']
  | ss =>
    ['[', '\n'] ++ ss.flatMap (fun s => List.replicate 4 ' ' ++ writeText s ++ [',', '\n']) ++ [']']

/-- Write a line that assigns to a key. -/
def writePair (key value : List Char) : List Char := key ++ [' ', '=', ' '] ++ value ++ ['\n']

end Toml

end ModalEditor
