import ModalEditor.Action

/-!
# Interpreting keys

`Editor.typeKeys` is where typed text arrives.  In normal and visual mode a key is given to the
reader of the mode, and the command it completes is dispatched: remembered if it can be repeated,
and run as one step of the undo history.  In insert mode a key is text, until the escape sequence
is complete; its characters are then taken back.

A command runs as often as its count says (`Editor.repeatPlan`).  It stops early when it changes
the mode, fails, or has no plan any more.  Repeating the last command (`Editor.replay`) runs that
command and never another repetition, so running a command always ends.
-/

namespace ModalEditor

namespace Editor

variable (replay : Editor → Editor)

/-- Run a plan once.  An edit ends visual mode. -/
def runPlan (p : Plan) (e : Editor) : Editor × Option HostError :=
  let (e, failure) := Action.run replay p e
  (if p.operator.kind = .edit ∧ e.mode = .visual then e.resumeNormal else e, failure)

/-- Run a plan for the command `c` and plan and run it again, `n` times in all, while the mode
stays `start`. -/
def repeatPlan (c : Command) (start : Mode) : (n : Nat) → Plan → Editor → Editor
  | 0, _, e => e
  | n + 1, p, e =>
    match runPlan replay p e with
    | (e, some failure) => e.report failure
    | (e, none) =>
      if e.mode = start then
        match e.plan? c with
        | some p => repeatPlan c start n p e
        | none => e
      else e

/-- Run a command, where `replay` is what repeating the last one does. -/
def runWith (e : Editor) (c : Command) : Editor :=
  match e.plan? c with
  | none => e
  | some p => repeatPlan replay c e.mode p.count p e

variable (e : Editor)

/-- Run the last repeatable command of the current mode again. -/
def replayLast : Editor :=
  match e.slots.last e.mode with
  | none => e
  | some c => runWith id e c

/-- Run a command. -/
def run (c : Command) : Editor := runWith replayLast e c

/-- The command changes the text or the host. -/
def isEdit (c : Command) : Bool :=
  match e.config.operator? c.operator with
  | some op => op.kind == .edit
  | none => false

/-- Remember a command for repeating it in mode `m`. -/
def record (m : Mode) (c : Command) : Editor := { e with slots := e.slots.record m c }

/-- Run a command that has been typed.  A command and the text typed in the insert mode that it
opens undo together. -/
def dispatch (c : Command) : Editor :=
  let e := (if e.isEdit c then e.record e.mode c else e).clearMessage
  let e := (e.mapBuffer Buffer.beginUndoGroup).run c
  if e.mode = .insert then e else e.mapBuffer Buffer.endUndoGroup

/-- Take back the escape sequence before the cursor and return to normal mode. -/
def leaveInsert : Editor :=
  let stop := e.buffer.cursor
  let start := e.lines.stepBack stop e.escape.length
  ((e.edit [.erase (.between start stop)]).setCursor start).forceNormal

/-- Type a character in insert mode, with `typed` of the escape sequence before it. -/
def typeInserted (typed : EscapeReader) (c : Char) : Editor :=
  let e := e.mapBuffer fun b => b.typeText [c]
  let typed := typed.read e.escape c
  if typed.isComplete e.escape then e.leaveInsert else { e with phase := .insert typed }

/-- Run a command if there is one. -/
def dispatch? (c : Option Command) : Editor :=
  match c with
  | some c => e.dispatch c
  | none => e

/-- Interpret a key. -/
def typeKey (c : Char) : Editor :=
  match e.phase with
  | .insert typed => e.typeInserted typed c
  | .normal reading =>
    let (reading, command) := reading.read e.config c
    { e with phase := .normal reading }.dispatch? command
  | .visual anchor lineWise reading =>
    let (reading, command) := reading.read e.config c
    { e with phase := .visual anchor lineWise reading }.dispatch? command

/-- Type text: keys one by one, or the text itself while interpretation is off. -/
def typeKeys (text : List Char) : Editor :=
  if e.enabled then text.foldl typeKey e else e.mapBuffer fun b => b.typeText text

/-- There are keys of a command that is not complete. -/
def hasPending : Bool := !e.phase.pending.isEmpty

end Editor

end ModalEditor
