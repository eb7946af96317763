import ModalEditor.Mode

/-!
# Keys and what they ask for

A terminal reports a `Key`; `Key.gesture` says what it asks the editor to do in a given mode.
Outside insert mode the keys for moving stand in for commands that move.
-/

namespace ModalEditor

/-- A report of the terminal. -/
inductive Key where
  | char (c : Char)
  | ctrl (c : Char)
  | alt (c : Char)
  | function (n : Nat)
  | escape
  | backspace
  | left
  | right
  | up
  | down
  | home
  | stop
  | pageUp
  | pageDown
  /-- A key without meaning here, or a report that is no key. -/
  | other
deriving DecidableEq, Repr

/-- What a key asks for. -/
inductive Gesture where
  /-- Give keys to the interpreter. -/
  | typing (keys : List Char)
  /-- Return to normal mode. -/
  | escape
  /-- Erase the character before the cursor. -/
  | backspace
  | save
  | toggleEnabled
  | quit
  | unknown
deriving DecidableEq, Repr

namespace Key

/-- The command that a key for moving stands for. -/
def command? : Key → Option Char
  | left => some 'h'
  | down => some 'j'
  | up => some 'k'
  | right => some 'l'
  | home => some 's'
  | stop => some 'e'
  | pageDown => some 'D'
  | pageUp => some 'U'
  | _ => none

/-- What a letter asks for that is typed with the control key. -/
def control (c : Char) : Gesture :=
  if c = 'q' then .quit
  else if c = 's' then .save
  else if c = 't' then .toggleEnabled
  else .unknown

/-- What a key asks for in mode `m`. -/
def gesture (m : Mode) : Key → Gesture
  | char c => .typing [c]
  | escape => .escape
  | ctrl c => control c
  | key =>
    if m = .insert then (if key = backspace then .backspace else .unknown)
    else
      match key.command? with
      | some c => .typing [c]
      | none => .unknown

end Key

end ModalEditor
