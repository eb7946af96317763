import ModalEditor.CommandLine.Arguments
import ModalEditor.Config.Store
import ModalEditor.Keyboard.Script

/-!
# Running from the command line

A run with a script needs no terminal: it loads a text, types the script and prints the text that
comes out.  The clipboard of the system is out of reach in such a run.
-/

namespace ModalEditor

namespace CommandLine

/-- How a run ends. -/
structure Outcome where
  /-- The exit code. -/
  status : Nat
  /-- What is printed. -/
  output : String := ""
deriving DecidableEq, Repr

/-- The text printed for `--version`. -/
def versionText : String := "keyquill 0.1.0\n"

/-- The lines printed for `--help`. -/
def helpLines : List String :=
  ["A modal text editor with vim-style motions, operators and counts",
   "",
   "Usage: keyquill [OPTIONS] [FILE]",
   "",
   "Arguments:",
   "  [FILE]  File to edit (omit to read from stdin if piped, or start with an empty buffer)",
   "",
   "Options:",
   "  -c, --config <PATH>  Config file to use instead of ~/.config/keyquill/config.toml",
   "  -k, --keys <SCRIPT>  Run a keystroke script without a terminal and print the resulting " ++
     "text (`<esc>` returns to normal mode, `<cr>` types a newline)",
   "      --log <PATH>     Append log output to this file (level from RUST_LOG, default warn)",
   "  -h, --help           Print help",
   "  -V, --version        Print version"]

/-- The text printed for `--help`. -/
def helpText : String := String.join (helpLines.map (· ++ "\n"))

/-- Where a run takes place. -/
structure Surroundings where
  files : FileTree
  /-- The home directory. -/
  home : Path
  /-- The bytes of the standard input. -/
  input : ByteArray

variable (s : Surroundings)

/-- The files with the log file in place. -/
def openLog (o : Options) : Except FileError FileTree :=
  match o.log with
  | none => .ok s.files
  | some p => s.files.touch p

/-- The configuration to use. -/
def chooseConfig (o : Options) : Except ConfigError Config :=
  match o.config with
  | some p => Config.loadFrom s.files p
  | none => .ok (Config.load s.files s.home)

/-- The text to edit: the named file, or the standard input. -/
def openText (o : Options) : Except StoreError Workspace :=
  match o.file with
  | some p => Workspace.load s.files p
  | none =>
    match String.fromUTF8? s.input with
    | some text => .ok { files := s.files, buffer := .ofText text.toList }
    | none => .error (.readInput .notText)

/-- The buffer as it is edited without a terminal. -/
def prepare (config : Config) (b : Buffer) : Buffer :=
  { b with clipboard := .unreachable }.withUndoLimit config.undoLimit

/-- A text as it is printed, with a line feed at its end. -/
def printed (text : List Char) : String :=
  String.ofList (if text.getLast? = some '\n' then text else text ++ ['\n'])

/-- Carry out a script.  Without a script a terminal would be needed. -/
def runKeys (e : Editor) : Option String → Editor × Outcome
  | some script =>
    let e := e.runScript script.toList
    (e, { status := 0, output := printed e.buffer.text })
  | none => (e, { status := 1 })

/-- Run with the given options. -/
def edit (o : Options) : FileTree × Outcome :=
  match openLog s o with
  | .error _ => (s.files, { status := 1 })
  | .ok files =>
    let s := { s with files }
    match chooseConfig s o, openText s o with
    | .ok config, .ok w =>
      let e := Editor.ofWorkspace { w with buffer := prepare config w.buffer } config
      let (e, outcome) := runKeys e o.keys
      (e.files, outcome)
    | _, _ => (s.files, { status := 1 })

/-- Run with the given arguments. -/
def run (arguments : List String) : FileTree × Outcome :=
  match Request.ofArguments arguments with
  | .help => (s.files, { status := 0, output := helpText })
  | .version => (s.files, { status := 0, output := versionText })
  | .invalid => (s.files, { status := 2 })
  | .edit o => edit s o

end CommandLine

end ModalEditor
