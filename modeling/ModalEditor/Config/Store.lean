import ModalEditor.Config.Document
import ModalEditor.Files.Tree

/-!
# Loading and saving the configuration

The configuration has a place of its own below the home directory.  Loading from there never
fails: without a readable document the defaults apply.
-/

namespace ModalEditor

/-- Why a configuration could not be loaded or saved. -/
inductive ConfigError where
  | read (p : Path) (cause : FileError)
  | parse (p : Path)
  | makeDirectories (cause : FileError)
  | sizeOutOfRange
  | write (p : Path) (cause : FileError)
deriving DecidableEq, Repr

namespace ConfigError

/-- The error in words. -/
def message : ConfigError → String
  | read p cause => "Failed to read config file: " ++ p.text ++ ": " ++ cause.message
  | parse p => "Failed to parse config file: " ++ p.text
  | makeDirectories cause => cause.message
  | sizeOutOfRange => "out-of-range value for u64 type"
  | write p cause => "Failed to write config file: " ++ p.text ++ ": " ++ cause.message

end ConfigError

namespace Config

/-- The place of the configuration below the home directory. -/
def homePath (home : Path) : Path :=
  ((home.child ".config").child "keyquill").child "config.toml"

/-- Load the configuration at `p`. -/
def loadFrom (t : FileTree) (p : Path) : Except ConfigError Config :=
  match t.readText p with
  | .error e => .error (.read p e)
  | .ok document =>
    match ofDocument? document with
    | some c => .ok c
    | none => .error (.parse p)

/-- Load the configuration of the user, or the defaults. -/
def load (t : FileTree) (home : Path) : Config :=
  match loadFrom t (homePath home) with
  | .ok c => c
  | .error _ => {}

/-- Create the directories that `p` lies in. -/
def makeParents (t : FileTree) (p : Path) : FileTree × Option FileError :=
  match p.parent? with
  | none => (t, none)
  | some parent => t.makeDirectories parent

/-- Save the configuration at `p`, creating the directories it lies in. -/
def saveTo (c : Config) (t : FileTree) (p : Path) : FileTree × Option ConfigError :=
  match makeParents t p with
  | (t, some e) => (t, some (.makeDirectories e))
  | (t, none) =>
    if c.isWritable then
      match t.writeText p c.document with
      | .ok t => (t, none)
      | .error e => (t, some (.write p e))
    else (t, some .sizeOutOfRange)

/-- Save the configuration of the user. -/
def save (c : Config) (t : FileTree) (home : Path) : FileTree × Option ConfigError :=
  c.saveTo t (homePath home)

end Config

end ModalEditor
