import ModalEditor.Interpreter
import ModalEditor.Keyboard.Key

/-!
# Sessions at a terminal

A `Session` is an editor that handles keys.  Quitting with unsaved changes is refused once with a
warning, and done if it is asked for again at once.
-/

namespace ModalEditor

/-- An editor at a terminal. -/
structure Session extends Editor where
  /-- The last key asked to quit and was refused. -/
  quitRefused : Bool := false

namespace Session

/-- The warning that quitting would lose changes. -/
def quitWarning : String := "No write since last change (press Ctrl-q again to quit)"

/-- Save the buffer and tell the outcome. -/
def saveAndTell (e : Editor) : Editor :=
  match e.toWorkspace.save with
  | (w, none) =>
    { e with toWorkspace := w }.say ("Wrote " ++ (w.buffer.path.map Path.text).getD "") .info
  | (w, some failure) => { e with toWorkspace := w }.say failure.message .error

/-- What a gesture other than quitting does to the editor. -/
def perform (e : Editor) : Gesture → Editor
  | .typing keys => e.typeKeys keys
  | .escape => e.forceNormal
  | .backspace => e.mapBuffer Buffer.backspace
  | .save => saveAndTell e
  | .toggleEnabled =>
    let e := e.toggleEnabled
    e.say (if e.enabled then "Modal editing on" else "Modal editing off") .info
  | .quit | .unknown => e

/-- Handle a key, and tell whether the session is over. -/
def handle (s : Session) (key : Key) : Session × Bool :=
  match key.gesture s.mode with
  | .quit =>
    if s.buffer.dirty ∧ !s.quitRefused then
      ({ s.toEditor.say quitWarning .warning with quitRefused := true }, false)
    else (s, true)
  | gesture => ({ perform s.toEditor gesture with quitRefused := false }, false)

end Session

end ModalEditor
