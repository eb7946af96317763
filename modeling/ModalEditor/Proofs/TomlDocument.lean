import Mathlib.Data.List.Basic
import ModalEditor.Proofs.TomlText

/-!
# Reading the documents that are written

The values that settings are written as can be read: texts and lists of texts, truth values, and
numbers (`Toml.readValue_writeText`, `Toml.readValue_writeTexts` and so on).  So can the lines that
assign them to keys, one after the other (`Toml.readLines_writePair`).
-/

namespace ModalEditor

namespace Toml

variable {c : Char} {s r ds : List Char} {n : Nat}

/-! ### Digits -/

theorem hexDigit?_of_isDigit (h : c.isDigit = true) : hexDigit? c = some (c.toNat - '0'.toNat) := by
  have hrange : '0' ≤ c ∧ c ≤ '9' := by
    simp only [Char.isDigit, Bool.and_eq_true, decide_eq_true_eq] at h
    exact h
  rw [hexDigit?, if_pos hrange]

theorem ne_of_isDigit {d : Char} (hc : c.isDigit = true) (hd : d.isDigit = false) : c ≠ d := by
  rintro rfl
  rw [hc] at hd
  cases hd

theorem isDigitOf_of_isDigit (h : c.isDigit = true) : isDigitOf 10 c = true := by
  rw [isDigitOf, hexDigit?_of_isDigit h]
  simp only [Char.isDigit, Bool.and_eq_true, decide_eq_true_eq] at h
  have hle : c.toNat ≤ '9'.toNat := h.2
  have hnine : '9'.toNat = 57 := rfl
  have hzero : '0'.toNat = 48 := rfl
  simp only [decide_eq_true_eq]
  omega

theorem digitsValue_eq (hds : ∀ c ∈ ds, c.isDigit = true) :
    digitsValue 10 ds = Nat.ofDigitChars 10 ds 0 := by
  refine List.foldl_ext _ _ _ fun n c hc => ?_
  rw [hexDigit?_of_isDigit (hds c hc), Option.getD_some, Nat.mul_comm]

theorem digitsValue_toDigits (n : Nat) : digitsValue 10 (Nat.toDigits 10 n) = n := by
  rw [digitsValue_eq fun c => Nat.isDigit_of_mem_toDigits (by decide) (by decide),
    Nat.ofDigitChars_toDigits (by decide) (by decide)]

/-- The first digit of a number is zero only for zero. -/
theorem exists_toDigits (n : Nat) : ∃ d ds, Nat.toDigits 10 n = d :: ds ∧ (d = '0' → n = 0) := by
  have hdigit : ∀ d < 10, d.digitChar = '0' → d = 0 := by decide
  induction n using Nat.strongRecOn with
  | ind n ih =>
    by_cases hlt : n < 10
    · exact ⟨_, _, Nat.toDigits_of_lt_base hlt, hdigit n hlt⟩
    · obtain ⟨d, ds, hds, hzero⟩ := ih (n / 10) (by omega)
      refine ⟨d, ds ++ [(n % 10).digitChar], ?_, fun hd => ?_⟩
      · rw [Nat.toDigits_of_base_le (by decide) (by omega), hds, List.cons_append]
      · have := hzero hd
        omega

theorem readMoreDigits_append (hds : ∀ c ∈ ds, c.isDigit = true) :
    readMoreDigits 10 (ds ++ '\n' :: r) = some (ds, '\n' :: r) := by
  induction ds with
  | nil => rfl
  | cons c ds ih =>
    obtain ⟨hc, hds⟩ := List.forall_mem_cons.1 hds
    rw [List.cons_append, readMoreDigits, if_pos (isDigitOf_of_isDigit hc), ih hds]
    · rfl
    · exact ne_of_isDigit hc rfl

/-! ### Numbers -/

/-- Up to a line feed there are only digits. -/
def IsNumber (s : List Char) : Prop := ∃ ds r, s = ds ++ '\n' :: r ∧ ∀ c ∈ ds, c.isDigit = true

theorem IsNumber.drop (h : IsNumber s) (hlength : ∀ c ∈ s.take n, c.isDigit = true) :
    IsNumber (s.drop n) := by
  obtain ⟨ds, r, rfl, hds⟩ := h
  by_cases hn : n ≤ ds.length
  · exact ⟨ds.drop n, r, List.drop_append_of_le_length hn, fun c hc =>
      hds c (List.mem_of_mem_drop hc)⟩
  · have hfeed : '\n' ∈ (ds ++ '\n' :: r).take n := by
      rw [List.take_append]
      obtain ⟨m, hm⟩ : ∃ m, n - ds.length = m + 1 := ⟨n - ds.length - 1, by omega⟩
      simp [hm]
    cases hlength _ hfeed

/-- A field of digits is followed by the rest of the number. -/
theorem IsNumber.readField {low high v : Nat} (h : IsNumber s)
    (hread : readField n low high s = some (v, r)) : IsNumber r := by
  unfold Toml.readField at hread
  dsimp only at hread
  split at hread
  · next hall =>
    split at hread
    · cases hread
      exact h.drop (by simpa using hall.2)
    · cases hread
  · cases hread

/-- No other character is in a number. -/
theorem IsNumber.readChar (h : IsNumber s) (hc : c.isDigit = false) (hfeed : c ≠ '\n') :
    readChar c s = none := by
  obtain ⟨ds, r, rfl, hds⟩ := h
  cases ds with
  | nil => exact if_neg fun h => hfeed h.symm
  | cons d ds =>
    exact if_neg (ne_of_isDigit (hds d (by simp)) hc)

theorem IsNumber.readDate (h : IsNumber s) : readDate s = none := by
  unfold Toml.readDate
  cases hread : Toml.readField 4 0 9999 s with
  | none => rfl
  | some year =>
    have hrest := (h.readField hread).readChar (c := '-') rfl (by decide)
    simp [hrest]

theorem IsNumber.readTime (h : IsNumber s) : readTime s = none := by
  unfold Toml.readTime
  cases hread : Toml.readField 2 0 23 s with
  | none => rfl
  | some hour =>
    have hrest := (h.readField hread).readChar (c := ':') rfl (by decide)
    simp [hrest]

theorem IsNumber.readDateTime (h : IsNumber s) : readDateTime s = none := by
  simp [Toml.readDateTime, h.readDate, h.readTime]

theorem readSign_of_isDigit (hc : c.isDigit = true) (s : List Char) :
    readSign (c :: s) = (false, c :: s) := by
  unfold readSign
  split
  · next heq => exact absurd (List.cons.inj heq).1 (ne_of_isDigit hc rfl)
  · next heq => exact absurd (List.cons.inj heq).1 (ne_of_isDigit hc rfl)
  · rfl

theorem afterWord?_of_isDigit {d : Char} {word : List Char} (hc : c.isDigit = true)
    (hd : d.isDigit = false) (s : List Char) : afterWord? (d :: word) (c :: s) = none := by
  have hne : d ≠ c := (ne_of_isDigit hc hd).symm
  simp [afterWord?, hne]

/-- A number does not begin with a zero if it goes on. -/
theorem readNumber_append (hds : ∀ c ∈ ds, c.isDigit = true) (hc : c.isDigit = true)
    (hzero : c ≠ '0') : readNumber (c :: (ds ++ '\n' :: r)) =
      (integer? false (digitsValue 10 (c :: ds))).map fun v => (v, '\n' :: r) := by
  have hdecimal : readDecimal (c :: (ds ++ '\n' :: r)) = some (c :: ds, '\n' :: r) := by
    rw [readDecimal]
    · rw [readDigits, if_pos (isDigitOf_of_isDigit hc), readMoreDigits_append hds]
      rfl
    · exact fun _ h => hzero (List.cons.inj h).1
  have hnumber : readDecimalNumber (c :: (ds ++ '\n' :: r)) =
      (integer? false (digitsValue 10 (c :: ds))).map fun v => (v, '\n' :: r) := by
    rw [readDecimalNumber, readSign_of_isDigit hc]
    dsimp only
    rw [hdecimal]
    show (integer? false (digitsValue 10 (c :: ds))).bind (fun v => some (v, '\n' :: r)) = _
    rw [Option.map_eq_bind]
    rfl
  rw [readNumber, readSign_of_isDigit hc]
  dsimp only
  rw [afterWord?_of_isDigit hc rfl, afterWord?_of_isDigit hc rfl]
  split
  · next h => cases h
  · next h => cases h
  · next heq => exact absurd (List.cons.inj heq).1 hzero
  · next heq => exact absurd (List.cons.inj heq).1 hzero
  · next heq => exact absurd (List.cons.inj heq).1 hzero
  · exact hnumber

theorem readNumber_toDigits (hn : n < 0x8000000000000000) :
    readNumber (Nat.toDigits 10 n ++ '\n' :: r) = some (.integer n, '\n' :: r) := by
  obtain ⟨d, ds, hds, hzero⟩ := exists_toDigits n
  have hall : ∀ c ∈ d :: ds, c.isDigit = true := fun c hc =>
    Nat.isDigit_of_mem_toDigits (b := 10) (n := n) (by decide) (by decide) (hds ▸ hc)
  by_cases hd : d = '0'
  · obtain rfl := hzero hd
    rfl
  · rw [hds, List.cons_append, readNumber_append (fun c hc => hall c (by simp [hc]))
      (hall d (by simp)) hd, ← hds, digitsValue_toDigits, integer?]
    simp [hn]

/-! ### Values -/

theorem readScalar_of_isDigit (hc : c.isDigit = true) (s : List Char) :
    readScalar (c :: s) = (readDateTime (c :: s)).or (readNumber (c :: s)) := by
  unfold readScalar
  split
  · next heq => exact absurd (List.cons.inj heq).1 (ne_of_isDigit hc rfl)
  · next heq => exact absurd (List.cons.inj heq).1 (ne_of_isDigit hc rfl)
  · next heq => exact absurd (List.cons.inj heq).1 (ne_of_isDigit hc rfl)
  · next heq => exact absurd (List.cons.inj heq).1 (ne_of_isDigit hc rfl)
  · rfl

/-- What is neither array nor table is read at any depth. -/
theorem readValue_scalar {depth : Nat} (hbracket : c ≠ '[') (hbrace : c ≠ '\x7b') (s : List Char) :
    readValue depth (c :: s) = readScalar (c :: s) := by
  unfold readValue
  split
  · next heq => exact absurd (List.cons.inj heq).1 hbracket
  · next heq => exact absurd (List.cons.inj heq).1 hbrace
  · next heq => exact absurd (List.cons.inj heq).1 hbracket
  · next heq => exact absurd (List.cons.inj heq).1 hbrace
  · rfl

theorem readValue_toDigits {depth : Nat} (hn : n < 0x8000000000000000) :
    readValue depth (Nat.toDigits 10 n ++ '\n' :: r) = some (.integer n, '\n' :: r) := by
  have hread := readNumber_toDigits (r := r) hn
  have hnumber : IsNumber (Nat.toDigits 10 n ++ '\n' :: r) :=
    ⟨_, r, rfl, fun c => Nat.isDigit_of_mem_toDigits (by decide) (by decide)⟩
  obtain ⟨d, ds, hds, -⟩ := exists_toDigits n
  have hd : d.isDigit = true :=
    Nat.isDigit_of_mem_toDigits (b := 10) (n := n) (by decide) (by decide) (by simp [hds])
  rw [hds, List.cons_append] at hread hnumber ⊢
  rw [readValue_scalar (ne_of_isDigit hd rfl) (ne_of_isDigit hd rfl), readScalar_of_isDigit hd,
    hnumber.readDateTime, hread]
  rfl

theorem readValue_boolean {depth : Nat} (b : Bool) :
    readValue depth ((toString b).toList ++ '\n' :: r) = some (.boolean b, '\n' :: r) := by
  cases b with
  | false => exact readValue_scalar (c := 'f') (by decide) (by decide) _
  | true => exact readValue_scalar (c := 't') (by decide) (by decide) _

/-- A text begins with a quote. -/
theorem exists_writeText (t : String) : ∃ c s, writeText t = c :: s ∧ (c = '"' ∨ c = '\'') := by
  unfold writeText
  generalize TextForm.forText t.toList = form
  cases form with
  | basic => exact ⟨_, _, rfl, .inl rfl⟩
  | literal => exact ⟨_, _, rfl, .inr rfl⟩
  | basicLines => exact ⟨_, _, rfl, .inl rfl⟩
  | literalLines => exact ⟨_, _, rfl, .inr rfl⟩

theorem readValue_writeText {depth : Nat} (t : String) (hr : NoQuote r) :
    readValue depth (writeText t ++ r) = some (.text t, r) := by
  have hread := readText_writeText t hr
  obtain ⟨c, s, hs, hc⟩ := exists_writeText t
  rw [hs, List.cons_append] at hread ⊢
  have hbracket : c ≠ '[' := by
    rintro rfl
    simp at hc
  have hbrace : c ≠ '\x7b' := by
    rintro rfl
    simp at hc
  rw [readValue_scalar hbracket hbrace]
  rcases hc with rfl | rfl
  · rw [readScalar, hread]
    simp
  · rw [readScalar, hread]
    simp

/-! ### Lists of texts -/

/-- A character at which a line begins to mean something. -/
def isStart (c : Char) : Bool := !isSpace c && c != '\n' && c != '\r' && c != '#'

theorem skipLines_of_isStart (hc : isStart c = true) (s : List Char) :
    skipLines (c :: s) = some (c :: s) := by
  simp only [isStart, Bool.and_eq_true, Bool.not_eq_true', bne_iff_ne] at hc
  obtain ⟨⟨⟨hspace, hfeed⟩, hreturn⟩, hcomment⟩ := hc
  rw [skipLines, skipLinesFrom]
  · rw [if_neg (by simp [hspace])]
  · exact fun h => hfeed h
  · exact fun _ h => absurd h hreturn
  · exact fun h => hcomment h

theorem skipLines_newline (s : List Char) : skipLines ('\n' :: s) = skipLines s := rfl

theorem skipLines_writeText (t : String) (s : List Char) :
    skipLines (writeText t ++ s) = some (writeText t ++ s) := by
  obtain ⟨c, u, hu, hc⟩ := exists_writeText t
  rw [hu, List.cons_append]
  refine skipLines_of_isStart ?_ _
  rcases hc with rfl | rfl <;> rfl

theorem writeText_append_ne_bracket (t : String) (s u : List Char) :
    writeText t ++ s ≠ ']' :: u := by
  obtain ⟨c, v, hv, hc⟩ := exists_writeText t
  rw [hv, List.cons_append]
  intro heq
  rw [(List.cons.inj heq).1] at hc
  simp at hc

/-- The lines on which a list shows its texts. -/
def elementLines (ts : List String) : List Char :=
  ts.flatMap fun t => List.replicate 4 ' ' ++ writeText t ++ [',', '\n']

theorem elementLines_cons (t : String) (ts : List String) :
    elementLines (t :: ts) =
      List.replicate 4 ' ' ++ writeText t ++ [',', '\n'] ++ elementLines ts :=
  List.flatMap_cons

/-- The last text of a list. -/
theorem readElements_last (depth : Nat) (t : String) (r : List Char) :
    readElements (readValue depth) (writeText t ++ ']' :: r) = some ([.text t], r) := by
  have hvalue : readValue depth (writeText t ++ ']' :: r) = some (.text t, ']' :: r) :=
    readValue_writeText t ⟨by simp, by simp⟩
  rw [readElements, skipLines_writeText]
  split
  · next h => cases h
  · next h => exact absurd (Option.some.inj h) (writeText_append_ne_bracket t _ _)
  · next h =>
    cases h
    rw [hvalue]
    rfl

/-- A text on a line of its own, and the others. -/
theorem readElements_line (depth : Nat) (t : String) (rest : List Char) :
    readElements (readValue depth) ('\n' :: (List.replicate 4 ' ' ++ writeText t ++ ',' :: rest)) =
      (readElements (readValue depth) rest).map fun r => (.text t :: r.1, r.2) := by
  have hskip : skipLines ('\n' :: (List.replicate 4 ' ' ++ writeText t ++ ',' :: rest)) =
      some (writeText t ++ ',' :: rest) := skipLines_writeText t _
  have hvalue : readValue depth (writeText t ++ ',' :: rest) = some (.text t, ',' :: rest) :=
    readValue_writeText t ⟨by simp, by simp⟩
  have hcomma : skipLines (',' :: rest) = some (',' :: rest) := skipLines_of_isStart rfl _
  rw [readElements, hskip]
  split
  · next h => cases h
  · next h => exact absurd (Option.some.inj h) (writeText_append_ne_bracket t _ _)
  · next h =>
    cases h
    rw [hvalue]
    dsimp only
    rw [hcomma]
    split
    · next h => cases h
    · next h =>
      cases h
      rw [if_pos (by simp; omega)]
    · next hne => exact absurd rfl (hne _)

/-- Texts on lines of their own, up to the closing bracket. -/
theorem readElements_elementLines (depth : Nat) (ts : List String) (r : List Char) :
    readElements (readValue depth) ('\n' :: (elementLines ts ++ ']' :: r)) =
      some (ts.map .text, r) := by
  induction ts with
  | nil =>
    rw [readElements, skipLines_newline]
    rfl
  | cons t ts ih =>
    have hlines : '\n' :: (elementLines (t :: ts) ++ ']' :: r) =
        '\n' :: (List.replicate 4 ' ' ++ writeText t ++
          ',' :: '\n' :: (elementLines ts ++ ']' :: r)) := by
      simp [elementLines_cons]
    rw [hlines, readElements_line, ih]
    rfl

/-- **A list of texts can be read.** -/
theorem readValue_writeTexts (depth : Nat) (ts : List String) (r : List Char) :
    readValue (depth + 1) (writeTexts ts ++ r) = some (.array (ts.map .text), r) := by
  have hread {s : List Char} (h : readElements (readValue depth) s = some (ts.map .text, r)) :
      readValue (depth + 1) ('[' :: s) = some (.array (ts.map .text), r) := by
    rw [readValue, h]
    rfl
  match ts with
  | [] =>
    refine hread (s := ']' :: r) ?_
    rw [readElements]
    rfl
  | [t] =>
    have hwrite : writeTexts [t] ++ r = '[' :: (writeText t ++ ']' :: r) := by simp [writeTexts]
    rw [hwrite]
    exact hread (readElements_last depth t r)
  | t :: u :: ts =>
    have hwrite : writeTexts (t :: u :: ts) ++ r =
        '[' :: '\n' :: (elementLines (t :: u :: ts) ++ ']' :: r) := by
      simp [writeTexts, elementLines]
    rw [hwrite]
    exact hread (readElements_elementLines depth (t :: u :: ts) r)

/-! ### Lines -/

variable {text : List Char} {v : TomlValue} {k : String} {d d' : Draft}

/-- At the end of a line, `text` is read as the value `v`. -/
structure Shows (text : List Char) (v : TomlValue) : Prop where
  head : ∃ c s, text = c :: s ∧ isSpace c = false
  read (r : List Char) : readValue maxDepth (text ++ '\n' :: r) = some (v, '\n' :: r)

theorem shows_writeText (t : String) : Shows (writeText t) (.text t) where
  head := by
    obtain ⟨c, s, hs, hc⟩ := exists_writeText t
    refine ⟨c, s, hs, ?_⟩
    rcases hc with rfl | rfl <;> rfl
  read _ := readValue_writeText t ⟨by simp, by simp⟩

theorem shows_writeTexts (ts : List String) : Shows (writeTexts ts) (.array (ts.map .text)) where
  head := by
    match ts with
    | [] => exact ⟨_, _, rfl, rfl⟩
    | [_] => exact ⟨_, _, rfl, rfl⟩
    | _ :: _ :: _ => exact ⟨_, _, rfl, rfl⟩
  read _ := readValue_writeTexts _ ts _

theorem shows_boolean (b : Bool) : Shows (toString b).toList (.boolean b) where
  head := by cases b <;> exact ⟨_, _, rfl, rfl⟩
  read _ := readValue_boolean b

theorem shows_number (hn : n < 0x8000000000000000) : Shows (toString n).toList (.integer n) where
  head := by
    obtain ⟨d, ds, hds, -⟩ := exists_toDigits n
    have hd : d.isDigit = true :=
      Nat.isDigit_of_mem_toDigits (b := 10) (n := n) (by decide) (by decide) (by simp [hds])
    refine ⟨d, ds, by simp [hds], ?_⟩
    simp [isSpace, ne_of_isDigit hd (d := ' ') rfl, ne_of_isDigit hd (d := '\t') rfl]
  read _ := by
    rw [Nat.toString_eq_repr, Nat.toList_repr]
    exact readValue_toDigits hn

theorem skipSpaces_of_ne {c : Char} (hc : isSpace c = false) (s : List Char) :
    skipSpaces (c :: s) = c :: s := by
  simp [skipSpaces, hc]

/-- A key begins a line, and it is no header. -/
theorem exists_writeKey (k : String) : ∃ c s, writeKey k = c :: s ∧ isStart c = true ∧ c ≠ '[' := by
  unfold writeKey
  dsimp only
  split
  · next h =>
    simp only [Bool.and_eq_true, Bool.not_eq_true', List.isEmpty_eq_false_iff,
      List.all_eq_true] at h
    obtain ⟨hne, hbare⟩ := h
    generalize k.toList = s at hne hbare
    cases s with
    | nil => exact absurd rfl hne
    | cons c s =>
      have hc := hbare c (by simp)
      refine ⟨c, s, rfl, ?_, ?_⟩
      · -- None of the characters in question is bare.
        have hother {d : Char} (hd : isBare d = false) : c ≠ d := by
          rintro rfl
          rw [hc] at hd
          cases hd
        simp [isStart, isSpace, hother (d := ' ') rfl, hother (d := '\t') rfl,
          hother (d := '\n') rfl, hother (d := '\r') rfl, hother (d := '#') rfl]
      · rintro rfl
        cases hc
  · unfold TextForm.forKey
    dsimp only
    split
    · exact ⟨_, _, rfl, rfl, by decide⟩
    split
    · exact ⟨_, _, rfl, rfl, by decide⟩
    · exact ⟨_, _, rfl, rfl, by decide⟩

/-- A key of a single part. -/
theorem readKey_writeKey (depth : Nat) (k : String) {s : List Char} {c : Char}
    (hbare : ∀ c, s.head? = some c → isBare c = false) (hs : skipSpaces s = c :: r) (hc : c ≠ '.') :
    readKey (depth + 1) (writeKey k ++ s) = some ([k], c :: r) := by
  obtain ⟨b, t, hkey, hb, -⟩ := exists_writeKey k
  have hspace : isSpace b = false := by
    simp only [isStart, Bool.and_eq_true, Bool.not_eq_true'] at hb
    exact hb.1.1.1
  have hskip : skipSpaces (writeKey k ++ s) = writeKey k ++ s := by
    rw [hkey, List.cons_append, skipSpaces_of_ne hspace]
  rw [readKey, hskip, readPart_writeKey k hbare]
  simp only [Option.bind_eq_bind, Option.bind_some, hs]
  split
  · next heq => exact absurd (List.cons.inj heq).1 hc
  · rfl

theorem readPair_writePair (hv : Shows text v) (k : String) (r : List Char) :
    readPair (readValue maxDepth) (writePair (writeKey k) text ++ r) =
      some ([k], v, '\n' :: r) := by
  obtain ⟨c, s, hs, hc⟩ := hv.head
  have hwrite : writePair (writeKey k) text ++ r =
      writeKey k ++ ' ' :: '=' :: ' ' :: (text ++ '\n' :: r) := by
    simp [writePair]
  have hkey : readKey maxDepth (writeKey k ++ ' ' :: '=' :: ' ' :: (text ++ '\n' :: r)) =
      some ([k], '=' :: ' ' :: (text ++ '\n' :: r)) :=
    readKey_writeKey 78 k (fun c hc => by cases hc; rfl) rfl (by decide)
  have hskip : skipSpaces (' ' :: (text ++ '\n' :: r)) = text ++ '\n' :: r := by
    show skipSpaces (text ++ '\n' :: r) = _
    rw [hs, List.cons_append, skipSpaces_of_ne hc]
  rw [hwrite, readPair, hkey]
  simp only [Option.bind_eq_bind, Option.bind_some, readChar, if_true, hskip, hv.read]
  rfl

/-- A line that can be read is followed by the others. -/
theorem readLines_of_readLine {s line : List Char} {c : Char}
    (hskip : skipLines s = some (c :: line))
    (hread : readLine d (c :: line) = some (d', '\n' :: r)) (hlength : r.length < s.length) :
    readLines d s = readLines d' r := by
  have hend : endLine? ('\n' :: r) = some r := rfl
  rw [readLines, hskip]
  dsimp only
  rw [hread]
  dsimp only
  rw [hend]
  dsimp only
  rw [if_pos hlength]

/-- **A line that is written is read**, and what it assigns is assigned. -/
theorem readLines_writePair (hv : Shows text v) (hd : d.assign [k] v = some d') (r : List Char) :
    readLines d (writePair (writeKey k) text ++ r) = readLines d' r := by
  obtain ⟨c, s, hs, hc, hbracket⟩ := exists_writeKey k
  have hpair := readPair_writePair hv k r
  have hlength : r.length < (writePair (writeKey k) text ++ r).length := by
    simp only [writePair, List.length_append, List.length_cons]
    omega
  generalize hline : writePair (writeKey k) text ++ r = line at hpair hlength
  obtain ⟨t, rfl⟩ : ∃ t, line = c :: t := by
    rw [← hline, writePair, hs]
    exact ⟨_, rfl⟩
  have hread : readLine d (c :: t) = some (d', '\n' :: r) := by
    unfold readLine
    split
    · next heq => exact absurd (List.cons.inj heq).1 hbracket
    · next heq => exact absurd (List.cons.inj heq).1 hbracket
    · rw [hpair]
      simp only [Option.bind_eq_bind, Option.bind_some, hd]
      rfl
  exact readLines_of_readLine (skipLines_of_isStart hc t) hread hlength

/-- A header on a line of its own, after a blank one. -/
theorem readLines_header (hd : d.openTable [k] = some d') (r : List Char) :
    readLines d ('\n' :: '[' :: (writeKey k ++ ']' :: '\n' :: r)) = readLines d' r := by
  obtain ⟨c, s, hs, -, hbracket⟩ := exists_writeKey k
  have hkey : readKey maxDepth (writeKey k ++ ']' :: '\n' :: r) = some ([k], ']' :: '\n' :: r) :=
    readKey_writeKey 78 k (fun c hc => by cases hc; rfl) rfl (by decide)
  have hread : readLine d ('[' :: (writeKey k ++ ']' :: '\n' :: r)) = some (d', '\n' :: r) := by
    unfold readLine
    split
    · next heq =>
      rw [hs] at heq
      exact absurd (List.cons.inj (List.cons.inj heq).2).1 hbracket
    · next heq =>
      cases heq
      rw [hkey]
      simp only [Option.bind_eq_bind, Option.bind_some, readChar, if_true, hd]
      rfl
    · next hne => exact absurd rfl (hne _)
  exact readLines_of_readLine rfl hread (by simp; omega)

end Toml

end ModalEditor
