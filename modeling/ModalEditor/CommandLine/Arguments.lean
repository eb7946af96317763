import ModalEditor.Files.Path

/-!
# Command line arguments

The arguments name a file to edit and options.  An option takes its value from the same argument,
`--keys=x` or `-kx`, or from the next one, which then must not look like an option itself.  After
`--` all arguments are files.  Arguments are read from left to right, and the first one that
decides the outcome does.
-/

namespace ModalEditor

namespace CommandLine

/-- What a run is asked to do. -/
structure Options where
  /-- The file to edit. -/
  file : Option Path := none
  /-- The configuration to use instead of the user's own. -/
  config : Option Path := none
  /-- The script to run instead of a terminal session. -/
  keys : Option String := none
  /-- The file that the log goes to. -/
  log : Option Path := none
deriving DecidableEq, Repr

/-- What the arguments ask for. -/
inductive Request where
  | help
  | version
  | edit (o : Options)
  /-- The arguments make no sense. -/
  | invalid
deriving DecidableEq, Repr

/-- The options that take a value. -/
inductive ValueOption where
  | config
  | keys
  | log
deriving DecidableEq, Repr

/-- The options by their names. -/
inductive OptionName where
  | help
  | version
  | takesValue (v : ValueOption)
deriving DecidableEq, Repr

namespace OptionName

/-- The option with a long name. -/
def ofLong? (name : String) : Option OptionName :=
  if name = "help" then some help
  else if name = "version" then some version
  else if name = "config" then some (takesValue .config)
  else if name = "keys" then some (takesValue .keys)
  else if name = "log" then some (takesValue .log)
  else none

/-- The option with a letter for its name. -/
def ofShort? (c : Char) : Option OptionName :=
  if c = 'h' then some help
  else if c = 'V' then some version
  else if c = 'c' then some (takesValue .config)
  else if c = 'k' then some (takesValue .keys)
  else none

end OptionName

/-- An argument by its look. -/
inductive Argument where
  /-- The mark after which all arguments are files. -/
  | endOfOptions
  /-- An option by its long name, perhaps with a value. -/
  | long (name : String) (value : Option String)
  /-- An option by its letter, perhaps with a value or more letters behind it. -/
  | short (name : Char) (rest : List Char)
  /-- A file, or the value of the option before it.  A dash alone is one. -/
  | plain
deriving DecidableEq, Repr

namespace Argument

/-- How an argument looks. -/
def of (a : String) : Argument :=
  match a.toList with
  | ['-', '-'] => endOfOptions
  | '-' :: '-' :: cs =>
    let name := cs.takeWhile (· != '=')
    match cs.dropWhile (· != '=') with
    | [] => long (String.ofList name) none
    | _ :: value => long (String.ofList name) (some (String.ofList value))
  | '-' :: c :: cs => short c cs
  | _ => plain

end Argument

namespace Options

/-- Give an option its value.  Each option is given once, and paths are not empty. -/
def set? (o : Options) (v : ValueOption) (value : String) : Option Options :=
  match v with
  | .config =>
    if o.config.isSome ∨ value = "" then none else some { o with config := some ⟨value⟩ }
  | .keys => if o.keys.isSome then none else some { o with keys := some value }
  | .log => if o.log.isSome ∨ value = "" then none else some { o with log := some ⟨value⟩ }

/-- Name the file to edit, of which there is at most one. -/
def setFile? (o : Options) (name : String) : Option Options :=
  if o.file.isSome then none else some { o with file := some ⟨name⟩ }

end Options

/-- Read arguments that are all files. -/
def readFiles (o : Options) : List String → Request
  | [] => .edit o
  | a :: as =>
    match o.setFile? a with
    | some o => readFiles o as
    | none => .invalid

/-- The value behind the letter of an option, an equals sign before it left out. -/
def attachedValue? : List Char → Option String
  | [] => none
  | '=' :: cs => some (String.ofList cs)
  | cs => some (String.ofList cs)

/-- Read arguments.  `wanting` is the option that the next argument is the value of. -/
def readArguments (wanting : Option ValueOption) (o : Options) : List String → Request
  | [] => if wanting.isSome then .invalid else .edit o
  | a :: as =>
    let give (v : ValueOption) (value : Option String) : Request :=
      match value with
      | none => readArguments (some v) o as
      | some value =>
        match o.set? v value with
        | some o => readArguments none o as
        | none => .invalid
    match wanting, Argument.of a with
    | some v, .plain => give v (some a)
    | some _, _ => .invalid
    | none, .endOfOptions => readFiles o as
    | none, .long name value =>
      match OptionName.ofLong? name, value with
      | some .help, none => .help
      | some .version, none => .version
      | some (.takesValue v), value => give v value
      | _, _ => .invalid
    | none, .short name rest =>
      match OptionName.ofShort? name with
      | some .help => .help
      | some .version => .version
      | some (.takesValue v) => give v (attachedValue? rest)
      | none => .invalid
    | none, .plain =>
      match o.setFile? a with
      | some o => readArguments none o as
      | none => .invalid

/-- What the arguments ask for. -/
def Request.ofArguments (arguments : List String) : Request := readArguments none {} arguments

end CommandLine

end ModalEditor
