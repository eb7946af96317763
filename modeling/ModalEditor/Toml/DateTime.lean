import ModalEditor.Toml.Number

/-!
# Dates and times in TOML

A date is written `2001-02-03`, a time `04:05:06` perhaps with a fraction of a second, and the two
together with a `T` or a space between them and perhaps an offset behind.  They are checked to
exist; a minute may have a sixty-first second.
-/

namespace ModalEditor

namespace Toml

/-- Read `n` decimal digits with a value between `low` and `high`. -/
def readField (n low high : Nat) (s : List Char) : Option (Nat × List Char) :=
  let ds := s.take n
  if ds.length = n ∧ ds.all Char.isDigit then
    let v := digitsValue 10 ds
    if low ≤ v ∧ v ≤ high then some (v, s.drop n) else none
  else none

/-- Read the character `c`. -/
def readChar (c : Char) : List Char → Option (List Char)
  | d :: s => if d = c then some s else none
  | [] => none

/-- The number of days in a month. -/
def daysIn (year month : Nat) : Nat :=
  if month = 2 then
    if year % 4 = 0 ∧ (year % 100 ≠ 0 ∨ year % 400 = 0) then 29 else 28
  else if month = 4 ∨ month = 6 ∨ month = 9 ∨ month = 11 then 30
  else 31

/-- Read a date. -/
def readDate (s : List Char) : Option (List Char) := do
  let (year, s) ← readField 4 0 9999 s
  let s ← readChar '-' s
  let (month, s) ← readField 2 1 12 s
  let s ← readChar '-' s
  let (_, s) ← readField 2 1 (daysIn year month) s
  return s

/-- Read the fraction of a second, if there is one. -/
def readSubsecond : List Char → List Char
  | '.' :: c :: s => if c.isDigit then s.dropWhile Char.isDigit else '.' :: c :: s
  | s => s

/-- Read a time of day. -/
def readTime (s : List Char) : Option (List Char) := do
  let (_, s) ← readField 2 0 23 s
  let s ← readChar ':' s
  let (_, s) ← readField 2 0 59 s
  let s ← readChar ':' s
  let (_, s) ← readField 2 0 60 s
  return readSubsecond s

/-- Read the offset from universal time, if there is one. -/
def readOffset : List Char → Option (List Char)
  | 'Z' :: s | 'z' :: s => some s
  | '+' :: s | '-' :: s => do
    let (_, s) ← readField 2 0 23 s
    let s ← readChar ':' s
    let (_, s) ← readField 2 0 59 s
    return s
  | s => some s

/-- Read the time after a date, if there is one. -/
def readTimeOfDate : List Char → Option (List Char)
  | c :: s =>
    if c = 'T' ∨ c = 't' ∨ c = ' ' then
      match readTime s with
      | some s => readOffset s
      | none => some (c :: s)
    else some (c :: s)
  | [] => some []

/-- Read a date, a time or both. -/
def readDateTime (s : List Char) : Option (TomlValue × List Char) := do
  let rest ←
    match readDate s with
    | some rest => readTimeOfDate rest
    | none => readTime s
  return (.dateTime (s.take (s.length - rest.length)), rest)

end Toml

end ModalEditor
