import ModalEditor.Config.Bindings

/-!
# Configuration

`Config` holds the settings of an editor; each has a default.
-/

namespace ModalEditor

/-- The settings. -/
structure Config where
  /-- The characters that form words of their own, as punctuation does. -/
  wordSeparators : String := "`~!@#$%^&*()-=+[\x7b]\x7d\\|;:'\",.<>/?"
  /-- The keys that leave insert mode. -/
  escapeSequence : String := "jk"
  /-- The number of spaces of one step of indentation. -/
  indentWidth : Nat := 4
  /-- Share the register with the clipboard. -/
  syncRegister : Bool := true
  /-- The number of undo steps kept. -/
  undoLimit : Nat := 50
  /-- Show line numbers. -/
  showLineNumbers : Bool := true
  /-- The keys that run host commands. -/
  commandBindings : Bindings := .ofList [("u", ["undo"]), ("R", ["redo"])]
deriving DecidableEq, Repr

namespace Config

/-- The host commands bound to the key `c`. -/
def hostCommands? (config : Config) (c : Char) : Option (List String) :=
  config.commandBindings.find? (String.singleton c)

end Config

end ModalEditor
