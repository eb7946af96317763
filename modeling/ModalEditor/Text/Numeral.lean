/-!
# Numerals of a line index

A line index in a command is written in decimal digits, after an optional plus sign, and fits in
64 bits.  Reading stops at the first character that makes the text wrong, so a numeral that is
too large and goes on with a letter is one or the other, whichever comes first.
-/

namespace ModalEditor

/-- Why a text is no numeral. -/
inductive NumeralError where
  | empty
  | invalidDigit
  | tooLarge
deriving DecidableEq, Repr

namespace NumeralError

/-- The error in words. -/
def message : NumeralError → String
  | empty => "cannot parse integer from empty string"
  | invalidDigit => "invalid digit found in string"
  | tooLarge => "number too large to fit in target type"

end NumeralError

namespace Numeral

/-- The greatest index. -/
def maximum : Nat := 0xFFFFFFFFFFFFFFFF

/-- The value of a decimal digit. -/
def digit? (c : Char) : Option Nat := if c.isDigit then some (c.toNat - '0'.toNat) else none

/-- Read on, with `n` read so far. -/
def readFrom (n : Nat) : List Char → Except NumeralError Nat
  | [] => .ok n
  | c :: cs =>
    match digit? c with
    | none => .error .invalidDigit
    | some d => if maximum < n * 10 + d then .error .tooLarge else readFrom (n * 10 + d) cs

/-- Read a numeral. -/
def read : List Char → Except NumeralError Nat
  | [] => .error .empty
  | ['+'] => .error .invalidDigit
  | '+' :: cs => readFrom 0 cs
  | cs => readFrom 0 cs

end Numeral

end ModalEditor
