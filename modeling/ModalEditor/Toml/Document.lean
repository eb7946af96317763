import ModalEditor.Toml.DateTime

/-!
# TOML documents

`TomlTable.ofDocument?` reads a document: keys with values, under headers that open tables.  It
gives nothing if the document breaks a rule of the syntax, gives a key two values, or nests
brackets or dots too deeply.
-/

namespace ModalEditor

namespace Toml

/-- Brackets nest, and dots join keys, fewer than eighty levels deep. -/
def maxDepth : Nat := 79

/-! ### Keys -/

/-- A character of a key without quotes. -/
def isBare (c : Char) : Bool := c.isAlphanum || c == '_' || c == '-'

/-- Read one part of a key. -/
def readPart (s : List Char) : Option (String × List Char) :=
  match s with
  | '"' :: s => (readBasic s).map fun r => (String.ofList r.1, r.2)
  | '\'' :: s => (readLiteral s).map fun r => (String.ofList r.1, r.2)
  | s =>
    let bare := s.takeWhile isBare
    if bare.isEmpty then none else some (String.ofList bare, s.dropWhile isBare)

/-- Read a key of at most `depth` parts with dots between them. -/
def readKey : (depth : Nat) → List Char → Option (List String × List Char)
  | 0, _ => none
  | depth + 1, s => do
    let (k, s) ← readPart (skipSpaces s)
    match skipSpaces s with
    | '.' :: s =>
      let (ks, s) ← readKey depth s
      return (k :: ks, s)
    | s => return ([k], s)

/-! ### Values -/

/-- Read a value that is neither array nor table. -/
def readScalar (s : List Char) : Option (TomlValue × List Char) :=
  match s with
  | '"' :: _ | '\'' :: _ => (readText s).map fun r => (.text (String.ofList r.1), r.2)
  | 't' :: _ => (afterWord? ['t', 'r', 'u', 'e'] s).map fun r => (.boolean true, r)
  | 'f' :: _ => (afterWord? ['f', 'a', 'l', 's', 'e'] s).map fun r => (.boolean false, r)
  | _ => (readDateTime s).or (readNumber s)

/-- Read the elements of an array and its closing bracket. -/
def readElements (value : List Char → Option (TomlValue × List Char)) (s : List Char) :
    Option (List TomlValue × List Char) :=
  match skipLines s with
  | none => none
  | some (']' :: s) => some ([], s)
  | some start =>
    match value start with
    | none => none
    | some (v, rest) =>
      match skipLines rest with
      | some (']' :: rest) => some ([v], rest)
      | some (',' :: rest) =>
        if rest.length < s.length then
          (readElements value rest).map fun r => (v :: r.1, r.2)
        else none
      | _ => none
termination_by s.length

/-- Read a key, an equals sign and a value. -/
def readPair (value : List Char → Option (TomlValue × List Char)) (s : List Char) :
    Option (List String × TomlValue × List Char) := do
  let (ks, s) ← readKey maxDepth s
  let s ← readChar '=' s
  let (v, s) ← value (skipSpaces s)
  return (ks, v, s)

/-- Assign to the key with the parts `ks`. -/
def assignPair (origin : TableOrigin) (ks : List String) (v : TomlValue) (t : TomlTable) :
    Option TomlTable := do
  t.assign origin ks.dropLast (← ks.getLast?) v

/-- Read the pairs of a table in braces, adding them to `t`, and its closing brace. -/
def readPairs (value : List Char → Option (TomlValue × List Char)) (t : TomlTable)
    (s : List Char) : Option (TomlTable × List Char) :=
  match readPair value s with
  | none => none
  | some (ks, v, rest) =>
    match assignPair .braces ks v t, skipSpaces rest with
    | some t, '\x7d' :: rest => some (t, rest)
    | some t, ',' :: rest =>
      if rest.length < s.length then readPairs value t rest else none
    | _, _ => none
termination_by s.length

/-- Read the table after an opening brace. -/
def readBraces (value : List Char → Option (TomlValue × List Char)) (s : List Char) :
    Option (TomlTable × List Char) :=
  match skipSpaces s with
  | '\x7d' :: s => some ([], s)
  | _ => readPairs value [] s

/-- Read a value in which brackets nest at most `depth` levels deep. -/
def readValue : (depth : Nat) → List Char → Option (TomlValue × List Char)
  | 0, '[' :: _ => none
  | 0, '\x7b' :: _ => none
  | depth + 1, '[' :: s => (readElements (readValue depth) s).map fun r => (.array r.1, r.2)
  | depth + 1, '\x7b' :: s =>
    (readBraces (readValue depth) s).map fun r => (.table .braces r.1, r.2)
  | _, s => readScalar s

/-! ### Lines -/

/-- A table under construction, and the header of the part that is being read. -/
structure Draft where
  root : TomlTable := []
  header : List String := []

namespace Draft

/-- Open a table. -/
def openTable (d : Draft) (ks : List String) : Option Draft := do
  return { root := ← d.root.openTable ks.dropLast (← ks.getLast?), header := ks }

/-- Open a table that is added to others of its name. -/
def openElement (d : Draft) (ks : List String) : Option Draft := do
  return { root := ← d.root.openElement ks.dropLast (← ks.getLast?), header := ks }

/-- Assign to a key under the current header. -/
def assign (d : Draft) (ks : List String) (v : TomlValue) : Option Draft := do
  return { d with root := ← d.root.assignUnder d.header ks.dropLast (← ks.getLast?) v }

end Draft

/-- Read a line that is neither blank nor a comment, up to what may follow on it. -/
def readLine (d : Draft) (s : List Char) : Option (Draft × List Char) :=
  match s with
  | '[' :: '[' :: s => do
    let (ks, s) ← readKey maxDepth s
    let s ← readChar ']' s
    let s ← readChar ']' s
    return (← d.openElement ks, s)
  | '[' :: s => do
    let (ks, s) ← readKey maxDepth s
    let s ← readChar ']' s
    return (← d.openTable ks, s)
  | s => do
    let (ks, v, s) ← readPair (readValue maxDepth) s
    return (← d.assign ks v, s)

/-- Read the lines of a document. -/
def readLines (d : Draft) (s : List Char) : Option TomlTable :=
  match skipLines s with
  | none => none
  | some [] => some d.root
  | some start =>
    match readLine d start with
    | none => none
    | some (d, rest) =>
      match endLine? rest with
      | none => none
      | some rest => if rest.length < s.length then readLines d rest else none
termination_by s.length

end Toml

/-- Read a document.  A byte order mark at its start is passed over. -/
def TomlTable.ofDocument? (document : List Char) : Option TomlTable :=
  match document with
  | '\uFEFF' :: s => Toml.readLines {} s
  | s => Toml.readLines {} s

end ModalEditor
