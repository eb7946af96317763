/-!
# TOML values

A `TomlValue` is what a TOML document assigns to a key.  Tables remember how they came about
(`TableOrigin`), because that decides where a document may add to them: a table opened by a header
or written in braces is complete, while one that a longer header or a dotted key implies can grow.
-/

namespace ModalEditor

/-- How a table came about. -/
inductive TableOrigin where
  /-- By its own header. -/
  | header
  /-- By the header of a table inside it. -/
  | implied
  /-- By a dotted key. -/
  | dotted
  /-- In braces. -/
  | braces
deriving DecidableEq, Repr

/-- A value of a document. -/
inductive TomlValue where
  | text (s : String)
  | integer (n : Int)
  /-- A float, as it is written. -/
  | float (literal : List Char)
  | boolean (b : Bool)
  /-- A date, a time or both, as they are written. -/
  | dateTime (literal : List Char)
  | array (elements : List TomlValue)
  | table (origin : TableOrigin) (entries : List (String × TomlValue))
  /-- The tables that headers in double brackets add, the last one first. -/
  | tables (elements : List (List (String × TomlValue)))

/-- A table: keys with their values, each key once. -/
abbrev TomlTable := List (String × TomlValue)

namespace TomlTable

/-- Give `k` the value `v` instead of the one it has. -/
def replace (k : String) (v : TomlValue) (t : TomlTable) : TomlTable :=
  t.map fun e => if e.1 = k then (k, v) else e

/-- Give the new key `k` the value `v`. -/
def add (k : String) (v : TomlValue) (t : TomlTable) : TomlTable := t ++ [(k, v)]

/-- Change the table reached by the keys `ks`.  Tables on the way that do not exist are created
with origin `created`; a dotted key does not enter tables that are complete. -/
def change (created : TableOrigin) (f : TableOrigin → TomlTable → Option TomlTable) :
    (origin : TableOrigin) → (ks : List String) → TomlTable → Option TomlTable
  | origin, [], t => f origin t
  | _, k :: ks, t =>
    match t.lookup k with
    | none => (change created f created ks []).map fun t' => t.add k (.table created t')
    | some (.table origin t') =>
      if origin = .braces ∨ created = .dotted ∧ origin = .header then none
      else (change created f origin ks t').map fun t' => t.replace k (.table origin t')
    | some (.tables (last :: before)) =>
      (change created f .header ks last).map fun last => t.replace k (.tables (last :: before))
    | some _ => none

/-- Assign to a new key, inside the tables that the dotted key `ks` names. -/
def assign (origin : TableOrigin) (ks : List String) (k : String) (v : TomlValue) (t : TomlTable) :
    Option TomlTable :=
  change .dotted
    (fun reached t =>
      if !ks.isEmpty ∧ reached ≠ .dotted ∨ (t.lookup k).isSome then none else some (t.add k v))
    origin ks t

/-- Open the table named by the header `ks` and `k`. -/
def openTable (ks : List String) (k : String) (t : TomlTable) : Option TomlTable :=
  change .implied
    (fun _ t =>
      match t.lookup k with
      | none => some (t.add k (.table .header []))
      | some (.table .implied t') => some (t.replace k (.table .header t'))
      | some _ => none)
    .header ks t

/-- Add a table to those named by the header `ks` and `k`. -/
def openElement (ks : List String) (k : String) (t : TomlTable) : Option TomlTable :=
  change .implied
    (fun _ t =>
      match t.lookup k with
      | none => some (t.add k (.tables [[]]))
      | some (.tables ts) => some (t.replace k (.tables ([] :: ts)))
      | some _ => none)
    .header ks t

/-- Assign to a key of the table that the header `header` has opened. -/
def assignUnder (header ks : List String) (k : String) (v : TomlValue) (t : TomlTable) :
    Option TomlTable :=
  change .implied (fun origin t => t.assign origin ks k v) .header header t

end TomlTable

end ModalEditor
