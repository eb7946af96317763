import ModalEditor.Config
import ModalEditor.Motion

/-!
# The command table

The table says what each key does in operator position (`operator?`) and in motion position
(`motion?`).  A key can stand in both: `w` moves the cursor, and after `d` it says how far to
delete.

Keys bound to host commands take the place of built-in operators; the motions are fixed.
-/

namespace ModalEditor

/-- What has to follow an operator key. -/
inductive Arity where
  /-- Nothing. -/
  | alone
  /-- A motion that gives the range; in visual mode the selection gives it. -/
  | range
  /-- One literal character. -/
  | argument
  /-- Nothing: the command stands for another one. -/
  | standIn
deriving DecidableEq, Repr

/-- How an operator relates to modes and to repeating. -/
inductive Kind where
  /-- Moves the cursor, in visual mode extending the selection. -/
  | movement
  /-- Enters or leaves a mode. -/
  | mode
  /-- Changes the text or the host; ends visual mode, and can be repeated. -/
  | edit
  /-- Repeats another command. -/
  | standIn
deriving DecidableEq, Repr

/-- What an operator does. -/
inductive Action where
  | move (m : Motion)
  | search (s : Search)
  | scroll
  | insertBefore
  | insertAfter
  | insertLineStart
  | insertLineEnd
  | openBelow
  | openAbove
  | visual (lineWise : Bool)
  | deleteChar
  | pasteAfter
  | pasteBefore
  | delete
  | yank
  | change
  | indent
  | dedent
  | replaceChar
  | repeatLast
  | hostCommands (names : List String)
deriving DecidableEq, Repr

namespace Action

/-- The host commands that the action runs. -/
def hostNames : Action → List String
  | hostCommands names => names
  | _ => []

end Action

/-- An operator. -/
structure Operator where
  arity : Arity
  kind : Kind
  action : Action
deriving DecidableEq, Repr

namespace Operator

/-- A key that moves the cursor. -/
def moving (m : Motion) : Operator := ⟨.alone, .movement, .move m⟩

/-- The operators that need no configuration. -/
def builtin? : Char → Option Operator
  | 'i' => some ⟨.alone, .mode, .insertBefore⟩
  | 'a' => some ⟨.alone, .mode, .insertAfter⟩
  | 'I' => some ⟨.alone, .mode, .insertLineStart⟩
  | 'A' => some ⟨.alone, .mode, .insertLineEnd⟩
  | 'o' => some ⟨.alone, .edit, .openBelow⟩
  | 'O' => some ⟨.alone, .edit, .openAbove⟩
  | 'v' => some ⟨.alone, .mode, .visual false⟩
  | 'V' => some ⟨.alone, .mode, .visual true⟩
  | 'h' => some (moving .left)
  | 'j' => some (moving .down)
  | 'k' => some (moving .up)
  | 'l' => some (moving .right)
  | 'w' => some (moving .nextWord)
  | 'b' => some (moving .previousWord)
  | 's' => some (moving .lineStart)
  | 'e' => some (moving .lineEnd)
  | 'D' => some (moving .pageDown)
  | 'U' => some (moving .pageUp)
  | 'x' => some ⟨.alone, .edit, .deleteChar⟩
  | 'p' => some ⟨.alone, .edit, .pasteAfter⟩
  | 'P' => some ⟨.alone, .edit, .pasteBefore⟩
  | 'd' => some ⟨.range, .edit, .delete⟩
  | 'y' => some ⟨.range, .edit, .yank⟩
  | 'c' => some ⟨.range, .edit, .change⟩
  | '>' => some ⟨.range, .edit, .indent⟩
  | '<' => some ⟨.range, .edit, .dedent⟩
  | 'f' => some ⟨.argument, .movement, .search .forward⟩
  | 'F' => some ⟨.argument, .movement, .search .backward⟩
  | 'r' => some ⟨.argument, .edit, .replaceChar⟩
  | 'z' => some ⟨.argument, .movement, .scroll⟩
  | '.' => some ⟨.standIn, .standIn, .repeatLast⟩
  | _ => none

end Operator

/-- The operator at key `c`: the host commands bound to it, or a built-in operator. -/
def Config.operator? (config : Config) (c : Char) : Option Operator :=
  match config.hostCommands? c with
  | some names => some ⟨.alone, .edit, .hostCommands names⟩
  | none => Operator.builtin? c

/-- A key in motion position. -/
inductive MotionKey where
  | plain (m : Motion)
  | search (s : Search)
  | inner
deriving DecidableEq, Repr

namespace MotionKey

/-- The motion at key `c`. -/
def ofChar? : Char → Option MotionKey
  | 'w' => some (plain .nextWord)
  | 'b' => some (plain .previousWord)
  | 'h' => some (plain .left)
  | 'j' => some (plain .down)
  | 'k' => some (plain .up)
  | 'l' => some (plain .right)
  | 'e' => some (plain .lineEnd)
  | 's' => some (plain .lineStart)
  | 'D' => some (plain .pageDown)
  | 'U' => some (plain .pageUp)
  | 'f' => some (search .forward)
  | 'F' => some (search .backward)
  | 'i' => some inner
  | _ => none

/-- The motion needs a literal character. -/
def takesArgument : MotionKey → Bool
  | plain _ => false
  | search _ | inner => true

/-- The stretch that the motion covers from `p`, if it has the argument it needs. -/
def span? (m : MotionKey) (ls : Lines) (separators : List Char) (p : Position)
    (argument : Option Char) : Option Span :=
  match m with
  | plain m => some (.between p (m.target ls separators p))
  | search s => argument.map fun c => .between p (s.target ls p c)
  | inner => argument.map (ls.inner p)

end MotionKey

end ModalEditor
