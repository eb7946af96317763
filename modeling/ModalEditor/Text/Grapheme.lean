import ModalEditor.Text.Emoji

/-!
# Graphemes

A grapheme is what a reader takes for one character: a letter with its marks, a syllable, an emoji
joined from several.  `Grapheme.ofText` divides a text into graphemes, by the rules of Unicode for
extended grapheme clusters.  Nothing is lost (`Grapheme.flatten_ofText`), and no grapheme is empty
(`Grapheme.ne_nil_of_mem_ofText`).

Whether there is a boundary between two characters depends on the classes of both
(`GraphemeClass`), and in a few cases on more of the text before (`GraphemeContext`).
-/

namespace ModalEditor

/-! ### Classes of characters -/

/-- The part that a character plays in graphemes. -/
inductive GraphemeClass where
  | other
  | carriageReturn
  | lineFeed
  | control
  /-- A mark that extends the character before it. -/
  | extend
  | joiner
  | flagLetter
  /-- A mark that belongs to the character after it. -/
  | prepend
  /-- A mark that takes room of its own and belongs to the character before it. -/
  | spacing
  /-- A consonant at the start of a Korean syllable. -/
  | leading
  | vowel
  /-- A consonant at the end of a Korean syllable. -/
  | trailing
  /-- A Korean syllable without a consonant at its end. -/
  | openSyllable
  /-- A Korean syllable with a consonant at its end. -/
  | closedSyllable
  | pictograph
deriving DecidableEq, Repr

namespace GraphemeClass

/-- Characters without a glyph that stand alone. -/
def controls : CodeRanges :=
  [(0x0, 0x9), (0xB, 0xC), (0xE, 0x1F), (0x7F, 0x9F), (0xAD, 0xAD), (0x61C, 0x61C),
   (0x180E, 0x180E), (0x200B, 0x200B), (0x200E, 0x200F), (0x2028, 0x202E), (0x2060, 0x206F),
   (0xFEFF, 0xFEFF), (0xFFF0, 0xFFFB), (0x13430, 0x1343F), (0x1BCA0, 0x1BCA3), (0x1D173, 0x1D17A),
   (0xE0000, 0xE001F), (0xE0080, 0xE00FF), (0xE01F0, 0xE0FFF)]

/-- Marks that belong to the character after them. -/
def prepended : CodeRanges :=
  [(0x600, 0x605), (0x6DD, 0x6DD), (0x70F, 0x70F), (0x890, 0x891), (0x8E2, 0x8E2), (0xD4E, 0xD4E),
   (0x110BD, 0x110BD), (0x110CD, 0x110CD), (0x111C2, 0x111C3), (0x113D1, 0x113D1),
   (0x1193F, 0x1193F), (0x11941, 0x11941), (0x11A3A, 0x11A3A), (0x11A84, 0x11A89),
   (0x11D46, 0x11D46), (0x11F02, 0x11F02)]

/-- Marks that take room of their own. -/
def spacingMarks : CodeRanges :=
  [(0x903, 0x903), (0x93B, 0x93B), (0x93E, 0x940), (0x949, 0x94C), (0x94E, 0x94F), (0x982, 0x983),
   (0x9BF, 0x9C0), (0x9C7, 0x9C8), (0x9CB, 0x9CC), (0xA03, 0xA03), (0xA3E, 0xA40), (0xA83, 0xA83),
   (0xABE, 0xAC0), (0xAC9, 0xAC9), (0xACB, 0xACC), (0xB02, 0xB03), (0xB40, 0xB40), (0xB47, 0xB48),
   (0xB4B, 0xB4C), (0xBBF, 0xBBF), (0xBC1, 0xBC2), (0xBC6, 0xBC8), (0xBCA, 0xBCC), (0xC01, 0xC03),
   (0xC41, 0xC44), (0xC82, 0xC83), (0xCBE, 0xCBE), (0xCC1, 0xCC1), (0xCC3, 0xCC4), (0xCF3, 0xCF3),
   (0xD02, 0xD03), (0xD3F, 0xD40), (0xD46, 0xD48), (0xD4A, 0xD4C), (0xD82, 0xD83), (0xDD0, 0xDD1),
   (0xDD8, 0xDDE), (0xDF2, 0xDF3), (0xE33, 0xE33), (0xEB3, 0xEB3), (0xF3E, 0xF3F), (0xF7F, 0xF7F),
   (0x1031, 0x1031), (0x103B, 0x103C), (0x1056, 0x1057), (0x1084, 0x1084), (0x17B6, 0x17B6),
   (0x17BE, 0x17C5), (0x17C7, 0x17C8), (0x1923, 0x1926), (0x1929, 0x192B), (0x1930, 0x1931),
   (0x1933, 0x1938), (0x1A19, 0x1A1A), (0x1A55, 0x1A55), (0x1A57, 0x1A57), (0x1A6D, 0x1A72),
   (0x1B04, 0x1B04), (0x1B3E, 0x1B41), (0x1B82, 0x1B82), (0x1BA1, 0x1BA1), (0x1BA6, 0x1BA7),
   (0x1BE7, 0x1BE7), (0x1BEA, 0x1BEC), (0x1BEE, 0x1BEE), (0x1C24, 0x1C2B), (0x1C34, 0x1C35),
   (0x1CE1, 0x1CE1), (0x1CF7, 0x1CF7), (0xA823, 0xA824), (0xA827, 0xA827), (0xA880, 0xA881),
   (0xA8B4, 0xA8C3), (0xA952, 0xA952), (0xA983, 0xA983), (0xA9B4, 0xA9B5), (0xA9BA, 0xA9BB),
   (0xA9BE, 0xA9BF), (0xAA2F, 0xAA30), (0xAA33, 0xAA34), (0xAA4D, 0xAA4D), (0xAAEB, 0xAAEB),
   (0xAAEE, 0xAAEF), (0xAAF5, 0xAAF5), (0xABE3, 0xABE4), (0xABE6, 0xABE7), (0xABE9, 0xABEA),
   (0xABEC, 0xABEC), (0x11000, 0x11000), (0x11002, 0x11002), (0x11082, 0x11082),
   (0x110B0, 0x110B2), (0x110B7, 0x110B8), (0x1112C, 0x1112C), (0x11145, 0x11146),
   (0x11182, 0x11182), (0x111B3, 0x111B5), (0x111BF, 0x111BF), (0x111CE, 0x111CE),
   (0x1122C, 0x1122E), (0x11232, 0x11233), (0x112E0, 0x112E2), (0x11302, 0x11303),
   (0x1133F, 0x1133F), (0x11341, 0x11344), (0x11347, 0x11348), (0x1134B, 0x1134C),
   (0x11362, 0x11363), (0x113B9, 0x113BA), (0x113CA, 0x113CA), (0x113CC, 0x113CD),
   (0x11435, 0x11437), (0x11440, 0x11441), (0x11445, 0x11445), (0x114B1, 0x114B2),
   (0x114B9, 0x114B9), (0x114BB, 0x114BC), (0x114BE, 0x114BE), (0x114C1, 0x114C1),
   (0x115B0, 0x115B1), (0x115B8, 0x115BB), (0x115BE, 0x115BE), (0x11630, 0x11632),
   (0x1163B, 0x1163C), (0x1163E, 0x1163E), (0x116AC, 0x116AC), (0x116AE, 0x116AF),
   (0x1171E, 0x1171E), (0x11726, 0x11726), (0x1182C, 0x1182E), (0x11838, 0x11838),
   (0x11931, 0x11935), (0x11937, 0x11938), (0x11940, 0x11940), (0x11942, 0x11942),
   (0x119D1, 0x119D3), (0x119DC, 0x119DF), (0x119E4, 0x119E4), (0x11A39, 0x11A39),
   (0x11A57, 0x11A58), (0x11A97, 0x11A97), (0x11C2F, 0x11C2F), (0x11C3E, 0x11C3E),
   (0x11CA9, 0x11CA9), (0x11CB1, 0x11CB1), (0x11CB4, 0x11CB4), (0x11D8A, 0x11D8E),
   (0x11D93, 0x11D94), (0x11D96, 0x11D96), (0x11EF5, 0x11EF6), (0x11F03, 0x11F03),
   (0x11F34, 0x11F35), (0x11F3E, 0x11F3F), (0x1612A, 0x1612C), (0x16F51, 0x16F87)]

/-- Consonants at the start of Korean syllables. -/
def leadingConsonants : CodeRanges := [(0x1100, 0x115F), (0xA960, 0xA97C)]

/-- Vowels of Korean syllables, and vowels that behave alike. -/
def vowels : CodeRanges :=
  [(0x1160, 0x11A7), (0xD7B0, 0xD7C6), (0x16D63, 0x16D63), (0x16D67, 0x16D6A)]

/-- Consonants at the end of Korean syllables. -/
def trailingConsonants : CodeRanges := [(0x11A8, 0x11FF), (0xD7CB, 0xD7FB)]

/-- Whole Korean syllables. -/
def syllables : CodeRanges := [(0xAC00, 0xD7A3)]

/-- The class of `c`.  Of 28 syllables in a row the first has no consonant at its end. -/
def of (c : Char) : GraphemeClass :=
  if c = '\r' then carriageReturn
  else if c = '\n' then lineFeed
  else if c = Emoji.joiner then joiner
  else if controls.has c then control
  else if c.toNat < 0x80 then other
  else if extendingMarks.has c || Emoji.modifier.has c then extend
  else if spacingMarks.has c then spacing
  else if prepended.has c then prepend
  else if Emoji.flagLetter.has c then flagLetter
  else if Emoji.pictographic.has c then pictograph
  else if leadingConsonants.has c then leading
  else if vowels.has c then vowel
  else if trailingConsonants.has c then trailing
  else if syllables.has c then
    if (c.toNat - 0xAC00) % 28 = 0 then openSyllable else closedSyllable
  else other

/-- A control character or part of a line end. -/
def isControl (k : GraphemeClass) : Bool :=
  k == carriageReturn || k == lineFeed || k == control

/-- `k` and `l` in a row are parts of one Korean syllable. -/
def joinsSyllable : (k l : GraphemeClass) → Bool
  | leading, l => l == leading || l == vowel || l == openSyllable || l == closedSyllable
  | vowel, l | openSyllable, l => l == vowel || l == trailing
  | trailing, l | closedSyllable, l => l == trailing
  | _, _ => false

end GraphemeClass

/-! ### Conjuncts -/

/-- How far a conjunct of the scripts of India has been read. -/
inductive Conjunct where
  /-- There is none. -/
  | none
  /-- A consonant, perhaps with marks. -/
  | consonant
  /-- A consonant and the sign that links it to the next one. -/
  | linked
deriving DecidableEq, Repr

namespace Conjunct

/-- Consonants that form conjuncts. -/
def consonants : CodeRanges :=
  [(0x915, 0x939), (0x958, 0x95F), (0x978, 0x97F), (0x995, 0x9A8), (0x9AA, 0x9B0), (0x9B2, 0x9B2),
   (0x9B6, 0x9B9), (0x9DC, 0x9DD), (0x9DF, 0x9DF), (0x9F0, 0x9F1), (0xA95, 0xAA8), (0xAAA, 0xAB0),
   (0xAB2, 0xAB3), (0xAB5, 0xAB9), (0xAF9, 0xAF9), (0xB15, 0xB28), (0xB2A, 0xB30), (0xB32, 0xB33),
   (0xB35, 0xB39), (0xB5C, 0xB5D), (0xB5F, 0xB5F), (0xB71, 0xB71), (0xC15, 0xC28), (0xC2A, 0xC39),
   (0xC58, 0xC5A), (0xD15, 0xD3A)]

/-- The signs that link consonants. -/
def linkers : CodeRanges :=
  [(0x94D, 0x94D), (0x9CD, 0x9CD), (0xACD, 0xACD), (0xB4D, 0xB4D), (0xC4D, 0xC4D), (0xD4D, 0xD4D)]

/-- Keeps a consonant from being joined. -/
def nonJoiner : Char := '\u200c'

/-- The conjunct after reading `c` as well. -/
def after (j : Conjunct) (c : Char) : Conjunct :=
  if consonants.has c then consonant
  else if linkers.has c then if j = none then none else linked
  else if c ≠ nonJoiner ∧ (GraphemeClass.of c = .extend ∨ c = Emoji.joiner) then j
  else none

end Conjunct

/-! ### Boundaries -/

/-- What decides about a boundary from the text before it. -/
structure GraphemeContext where
  /-- The class of the last character. -/
  last : GraphemeClass
  /-- A pictograph came last, perhaps with marks. -/
  pictograph : Bool
  /-- A pictograph and a joiner came last. -/
  joining : Bool
  /-- A letter of a flag came last that lacks the other one. -/
  halfFlag : Bool
  conjunct : Conjunct
deriving DecidableEq, Repr

namespace GraphemeContext

/-- The context after reading `c` as well. -/
def after (s : GraphemeContext) (c : Char) : GraphemeContext :=
  let k := GraphemeClass.of c
  { last := k
    pictograph := k == .pictograph || s.pictograph && k == .extend
    joining := s.pictograph && k == .joiner
    halfFlag := k == .flagLetter && !s.halfFlag
    conjunct := s.conjunct.after c }

/-- The context after `c` at the start of a text. -/
def start (c : Char) : GraphemeContext := after ⟨.other, false, false, false, .none⟩ c

/-- There is no boundary before `c`. -/
def joins (s : GraphemeContext) (c : Char) : Bool :=
  let k := GraphemeClass.of c
  if s.last == .carriageReturn && k == .lineFeed then true
  else if s.last.isControl || k.isControl then false
  else
    k == .extend || k == .joiner || k == .spacing || s.last == .prepend ||
      s.last.joinsSyllable k ||
      s.joining && k == .pictograph ||
      s.halfFlag && k == .flagLetter ||
      s.conjunct == .linked && Conjunct.consonants.has c

end GraphemeContext

/-- What a reader takes for one character. -/
abbrev Grapheme := List Char

namespace Grapheme

/-- Divide the text after the context `s`: the rest of the grapheme begun, and the graphemes after
it. -/
def resume (s : GraphemeContext) : List Char → Grapheme × List Grapheme
  | [] => ([], [])
  | c :: cs =>
    let (rest, more) := resume (s.after c) cs
    if s.joins c then (c :: rest, more) else ([], (c :: rest) :: more)

/-- The graphemes of a text. -/
def ofText : List Char → List Grapheme
  | [] => []
  | c :: cs =>
    let (rest, more) := resume (.start c) cs
    (c :: rest) :: more

theorem append_flatten_resume (s : GraphemeContext) (cs : List Char) :
    (resume s cs).1 ++ (resume s cs).2.flatten = cs := by
  induction cs generalizing s with
  | nil => rfl
  | cons c cs ih =>
    simp only [resume]
    split <;> simp [ih]

/-- Nothing is lost. -/
theorem flatten_ofText (cs : List Char) : (ofText cs).flatten = cs := by
  cases cs with
  | nil => rfl
  | cons c cs => simp [ofText, append_flatten_resume]

theorem ne_nil_of_mem_resume {s : GraphemeContext} {cs : List Char} {g : Grapheme}
    (h : g ∈ (resume s cs).2) : g ≠ [] := by
  induction cs generalizing s with
  | nil => simp [resume] at h
  | cons c cs ih =>
    simp only [resume] at h
    split at h
    · exact ih h
    · rcases List.mem_cons.1 h with rfl | h
      · simp
      · exact ih h

/-- No grapheme is empty. -/
theorem ne_nil_of_mem_ofText {cs : List Char} {g : Grapheme} (h : g ∈ ofText cs) : g ≠ [] := by
  cases cs with
  | nil => simp [ofText] at h
  | cons c cs =>
    rcases List.mem_cons.1 h with rfl | h
    · simp
    · exact ne_nil_of_mem_resume h

end Grapheme

end ModalEditor
