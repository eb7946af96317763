import ModalEditor.Command
import ModalEditor.Command.Table

/-!
# Reading commands

Commands are read key by key.  `NormalReader` reads `[count] operator [[count] motion] [argument]`
and `VisualReader`, where the selection stands for the motion, `[count] operator [argument]`.  A
key that fits nothing is passed over.  The state of a reader is what has been read of a command
that is not complete, and `pending` spells it.

`EscapeReader` watches the text typed in insert mode for the escape sequence.
-/

namespace ModalEditor

/-! ### Counts -/

/-- The digits typed so far, the first one not zero. -/
abbrev Digits := List Char

namespace Digits

/-- The greatest count. -/
def maximum : Nat := 99999

/-- The value of a decimal digit. -/
def value (c : Char) : Nat := c.toNat - '0'.toNat

/-- `c` continues the count. -/
def accepts (ds : Digits) (c : Char) : Bool := c.isDigit && (c != '0' || !ds.isEmpty)

/-- The count that the digits give: one if there are none, and never more than the greatest. -/
def count (ds : Digits) : Nat :=
  if ds.isEmpty then 1 else ds.foldl (fun n c => min (n * 10 + value c) maximum) 0

end Digits

/-! ### Normal mode -/

/-- What has been read of a command in normal mode. -/
inductive NormalReader where
  /-- The operator comes next. -/
  | operator (count : Digits)
  /-- The motion comes next. -/
  | motion (count : Digits) (operator : Char) (motionCount : Digits)
  /-- The argument comes next, of the motion if there is one and of the operator otherwise. -/
  | argument (count : Digits) (operator : Char) (motion : Option (Digits × Char))
deriving DecidableEq, Repr

namespace NormalReader

/-- Nothing has been read. -/
def initial : NormalReader := operator []

/-- The keys that have been read. -/
def pending : NormalReader → List Char
  | operator count => count
  | motion count op motionCount => count ++ op :: motionCount
  | argument count op none => count ++ [op]
  | argument count op (some (motionCount, m)) => count ++ op :: motionCount ++ [m]

/-- Read a key.  Gives the command that it completes, if any. -/
def read (config : Config) (r : NormalReader) (c : Char) : NormalReader × Option Command :=
  match r with
  | operator count =>
    if count.accepts c then (operator (count ++ [c]), none)
    else
      match (config.operator? c).map Operator.arity with
      | none => (r, none)
      | some .alone => (initial, some { operator := c, count := count.count })
      | some .standIn => (initial, some { operator := c, count := count.count, isVirtual := true })
      | some .range => (motion count c [], none)
      | some .argument => (argument count c none, none)
  | motion count op motionCount =>
    if motionCount.accepts c then (motion count op (motionCount ++ [c]), none)
    else
      let whole : Command :=
        { operator := op, motion := some c, count := count.count
          motionCount := motionCount.count }
      if c = op then (initial, some whole)
      else
        match MotionKey.ofChar? c with
        | none => (r, none)
        | some m =>
          if m.takesArgument then (argument count op (some (motionCount, c)), none)
          else (initial, some whole)
  | argument count op none =>
    (initial, some { operator := op, count := count.count, argument := some c })
  | argument count op (some (motionCount, m)) =>
    (initial, some
      { operator := op, motion := some m, count := count.count
        motionCount := motionCount.count, argument := some c })

end NormalReader

/-! ### Visual mode -/

/-- What has been read of a command in visual mode. -/
inductive VisualReader where
  /-- The operator comes next. -/
  | operator (count : Digits)
  /-- The argument of the operator comes next. -/
  | argument (count : Digits) (operator : Char)
deriving DecidableEq, Repr

namespace VisualReader

/-- Nothing has been read. -/
def initial : VisualReader := operator []

/-- The keys that have been read. -/
def pending : VisualReader → List Char
  | operator count => count
  | argument count op => count ++ [op]

/-- Read a key.  Gives the command that it completes, if any. -/
def read (config : Config) (r : VisualReader) (c : Char) : VisualReader × Option Command :=
  match r with
  | operator count =>
    if count.accepts c then (operator (count ++ [c]), none)
    else
      match (config.operator? c).map Operator.arity with
      | none => (r, none)
      | some .alone | some .range => (initial, some { operator := c, count := count.count })
      | some .standIn => (initial, some { operator := c, count := count.count, isVirtual := true })
      | some .argument => (argument count c, none)
  | argument count op =>
    (initial, some { operator := op, count := count.count, argument := some c })

end VisualReader

/-! ### Insert mode -/

/-- The part of the escape sequence that has just been typed. -/
abbrev EscapeReader := List Char

namespace EscapeReader

/-- Nothing of the escape sequence has been typed. -/
def initial : EscapeReader := []

/-- Watch a character.  One that does not continue the sequence does not begin it either. -/
def read (escape : List Char) (typed : EscapeReader) (c : Char) : EscapeReader :=
  if escape.isEmpty then typed
  else if (typed ++ [c]).isPrefixOf escape then typed ++ [c]
  else initial

/-- The whole sequence has been typed.  The empty sequence never counts as typed. -/
def isComplete (escape : List Char) (typed : EscapeReader) : Bool :=
  !escape.isEmpty && typed == escape

end EscapeReader

end ModalEditor
