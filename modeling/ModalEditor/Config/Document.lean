import ModalEditor.Config
import ModalEditor.Toml.Quoted

/-!
# The configuration as a document

A configuration is kept as a TOML document with one key per setting.  A setting that is missing
takes its default, a key that is no setting is ignored, and a value of another type makes the
document wrong.
-/

namespace ModalEditor

namespace TomlValue

/-- The value is a text. -/
def asText? : TomlValue → Option String
  | text s => some s
  | _ => none

/-- The value is a size. -/
def asSize? : TomlValue → Option Nat
  | integer n => if 0 ≤ n then some n.toNat else none
  | _ => none

/-- The value is a truth value. -/
def asBoolean? : TomlValue → Option Bool
  | boolean b => some b
  | _ => none

/-- The value is a list of texts. -/
def asTexts? : TomlValue → Option (List String)
  | array vs => vs.mapM asText?
  | _ => none

/-- The value maps keys to lists of texts. -/
def asBindings? : TomlValue → Option Bindings
  | table _ es =>
    (es.mapM fun e => (asTexts? e.2).map fun names => (e.1, names)).map Bindings.ofList
  | _ => none

end TomlValue

namespace Config

/-- The setting at `key`, read by `get`, or its default. -/
def setting? {α : Type} (t : TomlTable) (key : String) (get : TomlValue → Option α)
    (standard : α) : Option α :=
  match t.lookup key with
  | none => some standard
  | some v => get v

/-- The configuration that a table gives. -/
def ofTable? (t : TomlTable) : Option Config := do
  let standard : Config := {}
  return {
    wordSeparators := ← setting? t "word_separators" TomlValue.asText? standard.wordSeparators
    escapeSequence := ← setting? t "escape_sequence" TomlValue.asText? standard.escapeSequence
    indentWidth := ← setting? t "indent_width" TomlValue.asSize? standard.indentWidth
    syncRegister :=
      ← setting? t "sync_unnamed_register" TomlValue.asBoolean? standard.syncRegister
    undoLimit := ← setting? t "undo_limit" TomlValue.asSize? standard.undoLimit
    showLineNumbers :=
      ← setting? t "show_line_numbers" TomlValue.asBoolean? standard.showLineNumbers
    commandBindings :=
      ← setting? t "command_bindings" TomlValue.asBindings? standard.commandBindings }

/-- The configuration that a document gives. -/
def ofDocument? (document : String) : Option Config :=
  (TomlTable.ofDocument? document.toList).bind ofTable?

/-- The greatest size that a document can hold. -/
def maxSize : Nat := 0x7FFFFFFFFFFFFFFF

/-- Every size of the configuration can be written. -/
def isWritable (c : Config) : Bool := c.indentWidth ≤ maxSize && c.undoLimit ≤ maxSize

/-- The document for a configuration. -/
def document (c : Config) : String :=
  let key (k : String) := k.toList
  let number (n : Nat) := (toString n).toList
  let truth (b : Bool) := (toString b).toList
  String.ofList <|
    Toml.writePair (key "word_separators") (Toml.writeText c.wordSeparators) ++
    Toml.writePair (key "escape_sequence") (Toml.writeText c.escapeSequence) ++
    Toml.writePair (key "indent_width") (number c.indentWidth) ++
    Toml.writePair (key "sync_unnamed_register") (truth c.syncRegister) ++
    Toml.writePair (key "undo_limit") (number c.undoLimit) ++
    Toml.writePair (key "show_line_numbers") (truth c.showLineNumbers) ++
    "\n[command_bindings]\n".toList ++
    c.commandBindings.entries.flatMap fun e =>
      Toml.writePair (Toml.writeKey e.1) (Toml.writeTexts e.2)

end Config

end ModalEditor
