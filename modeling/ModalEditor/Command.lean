import ModalEditor.Mode

/-!
# Commands

A `Command` is what the keys of a command spell: an operator, perhaps a motion, perhaps an
argument, and two counts.  Giving the operator as its own motion means the whole line.

`RepeatSlots` keeps the last command worth repeating, for normal and for visual mode.
-/

namespace ModalEditor

/-- A command as it is spelled. -/
structure Command where
  operator : Char
  motion : Option Char := none
  /-- How often the operator runs. -/
  count : Nat := 1
  /-- How often the motion runs. -/
  motionCount : Nat := 1
  argument : Option Char := none
  /-- The command stands for another one. -/
  isVirtual : Bool := false
deriving DecidableEq, Repr

namespace Command

/-- The operator is its own motion. -/
def isWholeLine (c : Command) : Bool := c.motion == some c.operator

end Command

/-- The last repeatable commands of normal and of visual mode. -/
structure RepeatSlots where
  normal : Option Command := none
  visual : Option Command := none
deriving DecidableEq, Repr

namespace RepeatSlots

/-- Remember a command run in mode `m`.  Virtual commands stand for what is remembered and are not
remembered themselves. -/
def record (s : RepeatSlots) (m : Mode) (c : Command) : RepeatSlots :=
  if c.isVirtual then s
  else
    match m with
    | .normal => { s with normal := some c }
    | .visual => { s with visual := some c }
    | .insert => s

/-- The last repeatable command of mode `m`. -/
def last (s : RepeatSlots) : Mode → Option Command
  | .normal => s.normal
  | .visual => s.visual
  | .insert => none

end RepeatSlots

end ModalEditor
