import ModalEditor.Toml.Lexical

/-!
# Texts in TOML

A text is written between double quotes, where a backslash begins an escape, or between single
quotes, where it stands for itself; between three quotes it may run over lines.  A line feed
right after three opening quotes is not part of the text.
-/

namespace ModalEditor

namespace Toml

/-- The value of a hexadecimal digit. -/
def hexDigit? (c : Char) : Option Nat :=
  if '0' ≤ c ∧ c ≤ '9' then some (c.toNat - '0'.toNat)
  else if 'a' ≤ c ∧ c ≤ 'f' then some (c.toNat - 'a'.toNat + 10)
  else if 'A' ≤ c ∧ c ≤ 'F' then some (c.toNat - 'A'.toNat + 10)
  else none

/-- The value of hexadecimal digits. -/
def hexValue? (cs : List Char) : Option Nat :=
  cs.foldlM (fun n c => (hexDigit? c).map fun d => n * 16 + d) 0

/-- The character whose code point is written in hexadecimal. -/
def codePoint? (cs : List Char) : Option Char :=
  (hexValue? cs).bind fun n => if n.isValidChar then some (Char.ofNat n) else none

/-- The character that an escape with a single letter stands for. -/
def simpleEscape? : Char → Option Char
  | 'b' => some '\x08'
  | 't' => some '\t'
  | 'n' => some '\n'
  | 'f' => some '\x0c'
  | 'r' => some '\r'
  | '"' => some '"'
  | '\\' => some '\\'
  | _ => none

/-- Read an escape after its backslash. -/
def readEscape : List Char → Option (Char × List Char)
  | 'u' :: s => if s.length < 4 then none else (codePoint? (s.take 4)).map fun c => (c, s.drop 4)
  | 'U' :: s => if s.length < 8 then none else (codePoint? (s.take 8)).map fun c => (c, s.drop 8)
  | c :: s => (simpleEscape? c).map fun d => (d, s)
  | [] => none

theorem length_of_readEscape {s : List Char} {c : Char} {rest : List Char}
    (h : readEscape s = some (c, rest)) : rest.length < s.length := by
  unfold readEscape at h
  split at h
  · split at h
    · cases h
    · obtain ⟨d, -, h⟩ := Option.map_eq_some_iff.1 h
      simp only [Prod.mk.injEq] at h
      rw [← h.2, List.length_drop, List.length_cons]; omega
  · split at h
    · cases h
    · obtain ⟨d, -, h⟩ := Option.map_eq_some_iff.1 h
      simp only [Prod.mk.injEq] at h
      rw [← h.2, List.length_drop, List.length_cons]; omega
  · obtain ⟨d, -, h⟩ := Option.map_eq_some_iff.1 h
    simp only [Prod.mk.injEq] at h
    rw [← h.2, List.length_cons]; omega
  · cases h

/-- Read a text up to its closing double quote. -/
def readBasic : List Char → Option (List Char × List Char)
  | [] => none
  | '"' :: s => some ([], s)
  | '\\' :: s =>
    match _h : readEscape s with
    | none => none
    | some (c, rest) => (readBasic rest).map fun r => (c :: r.1, r.2)
  | c :: s => if isPlain c then (readBasic s).map fun r => (c :: r.1, r.2) else none
termination_by s => s.length
decreasing_by
  · have := length_of_readEscape _h; simp; omega
  · simp

/-- Read a text up to its closing single quote. -/
def readLiteral : List Char → Option (List Char × List Char)
  | [] => none
  | '\'' :: s => some ([], s)
  | c :: s => if isPlain c then (readLiteral s).map fun r => (c :: r.1, r.2) else none

/-- The quotes before the closing ones, and the text after those.  Of a run of quotes the last
three close, and at most two can stand before them. -/
def closing? (quote : Char) (s : List Char) : Option (List Char × List Char) :=
  let run := (s.takeWhile (· == quote)).length
  if run < 3 then none
  else some (List.replicate (min run 5 - 3) quote, s.drop (min run 5))

/-- Read a text of lines up to its closing double quotes.  After a backslash at the end of a line
(`trimming`) blanks and line ends are passed over. -/
def readBasicLines (trimming : Bool) (s : List Char) : Option (List Char × List Char) :=
  match s with
  | [] => none
  | '\n' :: s =>
    (readBasicLines trimming s).map fun r => (if trimming then r.1 else '\n' :: r.1, r.2)
  | '\r' :: '\n' :: s =>
    (readBasicLines trimming s).map fun r => (if trimming then r.1 else '\n' :: r.1, r.2)
  | '"' :: s =>
    match closing? '"' ('"' :: s) with
    | some r => some r
    | none => (readBasicLines false s).map fun r => ('"' :: r.1, r.2)
  | '\\' :: s =>
    if (newline? (skipSpaces s)).isSome then readBasicLines true s
    else
      match _h : readEscape s with
      | none => none
      | some (c, rest) => (readBasicLines false rest).map fun r => (c :: r.1, r.2)
  | c :: s =>
    if trimming && isSpace c then readBasicLines true s
    else if isPlain c then (readBasicLines false s).map fun r => (c :: r.1, r.2)
    else none
termination_by s.length
decreasing_by
  all_goals first
    | · have := length_of_readEscape _h
        simp
        omega
    | · simp
        try omega

/-- Read a text of lines up to its closing single quotes. -/
def readLiteralLines : List Char → Option (List Char × List Char)
  | [] => none
  | '\n' :: s => (readLiteralLines s).map fun r => ('\n' :: r.1, r.2)
  | '\r' :: '\n' :: s => (readLiteralLines s).map fun r => ('\n' :: r.1, r.2)
  | '\'' :: s =>
    match closing? '\'' ('\'' :: s) with
    | some r => some r
    | none => (readLiteralLines s).map fun r => ('\'' :: r.1, r.2)
  | c :: s => if isPlain c then (readLiteralLines s).map fun r => (c :: r.1, r.2) else none

/-- The text after a line end, if there is one at the front. -/
def skipNewline (s : List Char) : List Char := (newline? s).getD s

/-- Read a text in quotes. -/
def readText : List Char → Option (List Char × List Char)
  | '"' :: '"' :: '"' :: s => readBasicLines false (skipNewline s)
  | '"' :: s => readBasic s
  | '\'' :: '\'' :: '\'' :: s => readLiteralLines (skipNewline s)
  | '\'' :: s => readLiteral s
  | _ => none

end Toml

end ModalEditor
