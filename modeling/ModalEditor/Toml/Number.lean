import ModalEditor.Toml.Text
import ModalEditor.Toml.Value

/-!
# Numbers in TOML

Integers are written in decimal, or after `0x`, `0o` and `0b` in other bases, and fit in 64 bits
with a sign.  Floats have a fraction, an exponent or both.  Digits may be grouped by underscores,
one between two digits.
-/

namespace ModalEditor

namespace Toml

/-! ### Digits -/

/-- A digit of the base `base`. -/
def isDigitOf (base : Nat) (c : Char) : Bool :=
  match hexDigit? c with
  | some d => d < base
  | none => false

/-- Read on after a digit: digits, and underscores that stand between digits. -/
def readMoreDigits (base : Nat) : List Char → Option (List Char × List Char)
  | [] => some ([], [])
  | '_' :: s =>
    match s with
    | [] => none
    | c :: s =>
      if isDigitOf base c then (readMoreDigits base s).map fun r => (c :: r.1, r.2) else none
  | c :: s =>
    if isDigitOf base c then (readMoreDigits base s).map fun r => (c :: r.1, r.2)
    else some ([], c :: s)

/-- Read one digit or more. -/
def readDigits (base : Nat) : List Char → Option (List Char × List Char)
  | [] => none
  | c :: s =>
    if isDigitOf base c then (readMoreDigits base s).map fun r => (c :: r.1, r.2) else none

/-- The value of digits. -/
def digitsValue (base : Nat) (ds : List Char) : Nat :=
  ds.foldl (fun n c => n * base + (hexDigit? c).getD 0) 0

/-- Read the digits of a decimal number, which begin with zero only if there is no other. -/
def readDecimal : List Char → Option (List Char × List Char)
  | '0' :: s => some (['0'], s)
  | s => readDigits 10 s

/-- Read a sign: whether it is a minus, and the text after it. -/
def readSign : List Char → Bool × List Char
  | '-' :: s => (true, s)
  | '+' :: s => (false, s)
  | s => (false, s)

/-! ### Integers -/

/-- The integer of a given sign and size, if it fits in 64 bits. -/
def integer? (negative : Bool) (n : Nat) : Option TomlValue :=
  let limit := 0x8000000000000000
  if negative then (if n ≤ limit then some (.integer (-n)) else none)
  else if n < limit then some (.integer n) else none

/-- Read the digits of an integer in base `base`. -/
def readBased (base : Nat) (s : List Char) : Option (TomlValue × List Char) := do
  let (ds, s) ← readDigits base s
  return (← integer? false (digitsValue base ds), s)

/-! ### Floats -/

/-- What follows `word` at the front of `s`. -/
def afterWord? (word s : List Char) : Option (List Char) :=
  if word.isPrefixOf s then some (s.drop word.length) else none

/-- Read an exponent after its letter. -/
def readExponent (s : List Char) : Option (Int × List Char) := do
  let (negative, s) := readSign s
  let (ds, s) ← readDigits 10 s
  let n : Int := digitsValue 10 ds
  return (if negative then -n else n, s)

/-- The number `m * 10 ^ x` is too large for a float of double precision: it rounds to a power of
two that is out of range. -/
def overflowsDouble (m : Nat) (x : Int) : Bool :=
  let digits : Int := (toString m).length
  if m = 0 ∨ digits + x ≤ 300 then false
  else if 400 ≤ digits + x then true
  else (Nat.pow 2 1024 - Nat.pow 2 970) * Nat.pow 10 (-x).toNat ≤ m * Nat.pow 10 x.toNat

/-- Read what makes a decimal number a float: the fraction with its digits, and the exponent. -/
def readFraction : List Char → Option (List Char × Int × List Char)
  | '.' :: s => do
    let (ds, s) ← readDigits 10 s
    match s with
    | 'e' :: s | 'E' :: s =>
      let (x, s) ← readExponent s
      return (ds, x, s)
    | s => return (ds, 0, s)
  | 'e' :: s | 'E' :: s => do
    let (x, s) ← readExponent s
    return ([], x, s)
  | _ => none

/-- Read a number written in decimal. -/
def readDecimalNumber (s : List Char) : Option (TomlValue × List Char) := do
  let (negative, unsigned) := readSign s
  let (ds, rest) ← readDecimal unsigned
  match rest with
  | '.' :: _ | 'e' :: _ | 'E' :: _ =>
    let (fraction, x, rest) ← readFraction rest
    let m := digitsValue 10 (ds ++ fraction)
    if !negative && overflowsDouble m (x - fraction.length) then none
    else return (.float (s.take (s.length - rest.length)), rest)
  | _ => return (← integer? negative (digitsValue 10 ds), rest)

/-- Read a number. -/
def readNumber (s : List Char) : Option (TomlValue × List Char) :=
  let (_, unsigned) := readSign s
  match afterWord? ['i', 'n', 'f'] unsigned, afterWord? ['n', 'a', 'n'] unsigned, s with
  | some rest, _, _ | none, some rest, _ =>
    some (.float (s.take (s.length - rest.length)), rest)
  | none, none, '0' :: 'x' :: s => readBased 16 s
  | none, none, '0' :: 'o' :: s => readBased 8 s
  | none, none, '0' :: 'b' :: s => readBased 2 s
  | none, none, s => readDecimalNumber s

end Toml

end ModalEditor
