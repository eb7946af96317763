import ModalEditor.Text.Grapheme

/-!
# The width of graphemes

On a screen of cells most characters take one cell.  Marks and characters without a glyph take
none, and the wide characters of East Asian scripts and most emoji take two.

The width of a grapheme is the sum of those of its characters, except that what stands behind a
character can change it (`Following`): a selector asks for the emoji form or the text form, and a
modified or joined emoji is as wide as a single one.
-/

namespace ModalEditor

/-! ### Characters -/

/-- The characters with the property `Default_Ignorable_Code_Point`. -/
def ignorableRanges : CodeRanges :=
  [(0xAD, 0xAD), (0x34F, 0x34F), (0x61C, 0x61C), (0x115F, 0x1160), (0x17B4, 0x17B5),
   (0x180B, 0x180F), (0x200B, 0x200F), (0x202A, 0x202E), (0x2060, 0x206F), (0x3164, 0x3164),
   (0xFE00, 0xFE0F), (0xFEFF, 0xFEFF), (0xFFA0, 0xFFA0), (0xFFF0, 0xFFF8), (0x1BCA0, 0x1BCA3),
   (0x1D173, 0x1D17A), (0xE0000, 0xE0FFF)]

/-- The vowels and final consonants of Korean syllables, which take the room of the first one. -/
def syllablePartRanges : CodeRanges := [(0x1160, 0x11FF), (0xD7B0, 0xD7C6), (0xD7CB, 0xD7FB)]

/-- Signs that are drawn above or below their neighbours. -/
def attachedSignRanges : CodeRanges :=
  [(0x605, 0x605), (0x70F, 0x70F), (0x890, 0x891), (0x8E2, 0x8E2), (0xD4E, 0xD4E),
   (0xA8FA, 0xA8FA), (0x111C2, 0x111C3), (0x113D1, 0x113D1), (0x1193F, 0x1193F),
   (0x11941, 0x11941), (0x11A3A, 0x11A3A), (0x11A84, 0x11A89), (0x11D46, 0x11D46),
   (0x11F02, 0x11F02)]

/-- The characters whose East Asian width is wide or full. -/
def wideRanges : CodeRanges :=
  [(0x1100, 0x115F), (0x231A, 0x231B), (0x2329, 0x232A), (0x23E9, 0x23EC), (0x23F0, 0x23F0),
   (0x23F3, 0x23F3), (0x25FD, 0x25FE), (0x2614, 0x2615), (0x2630, 0x2637), (0x2648, 0x2653),
   (0x267F, 0x267F), (0x268A, 0x268F), (0x2693, 0x2693), (0x26A1, 0x26A1), (0x26AA, 0x26AB),
   (0x26BD, 0x26BE), (0x26C4, 0x26C5), (0x26CE, 0x26CE), (0x26D4, 0x26D4), (0x26EA, 0x26EA),
   (0x26F2, 0x26F3), (0x26F5, 0x26F5), (0x26FA, 0x26FA), (0x26FD, 0x26FD), (0x2705, 0x2705),
   (0x270A, 0x270B), (0x2728, 0x2728), (0x274C, 0x274C), (0x274E, 0x274E), (0x2753, 0x2755),
   (0x2757, 0x2757), (0x2795, 0x2797), (0x27B0, 0x27B0), (0x27BF, 0x27BF), (0x2B1B, 0x2B1C),
   (0x2B50, 0x2B50), (0x2B55, 0x2B55), (0x2E80, 0x2E99), (0x2E9B, 0x2EF3), (0x2F00, 0x2FD5),
   (0x2FF0, 0x303E), (0x3041, 0x3096), (0x3099, 0x30FF), (0x3105, 0x312F), (0x3131, 0x318E),
   (0x3190, 0x31E5), (0x31EF, 0x321E), (0x3220, 0x3247), (0x3250, 0xA48C), (0xA490, 0xA4C6),
   (0xA960, 0xA97C), (0xAC00, 0xD7A3), (0xF900, 0xFAFF), (0xFE10, 0xFE19), (0xFE30, 0xFE52),
   (0xFE54, 0xFE66), (0xFE68, 0xFE6B), (0xFF01, 0xFF60), (0xFFE0, 0xFFE6), (0x16FE0, 0x16FE4),
   (0x16FF0, 0x16FF1), (0x17000, 0x187F7), (0x18800, 0x18CD5), (0x18CFF, 0x18D08),
   (0x1AFF0, 0x1AFF3), (0x1AFF5, 0x1AFFB), (0x1AFFD, 0x1AFFE), (0x1B000, 0x1B122),
   (0x1B132, 0x1B132), (0x1B150, 0x1B152), (0x1B155, 0x1B155), (0x1B164, 0x1B167),
   (0x1B170, 0x1B2FB), (0x1D300, 0x1D356), (0x1D360, 0x1D376), (0x1F004, 0x1F004),
   (0x1F0CF, 0x1F0CF), (0x1F18E, 0x1F18E), (0x1F191, 0x1F19A), (0x1F200, 0x1F202),
   (0x1F210, 0x1F23B), (0x1F240, 0x1F248), (0x1F250, 0x1F251), (0x1F260, 0x1F265),
   (0x1F300, 0x1F320), (0x1F32D, 0x1F335), (0x1F337, 0x1F37C), (0x1F37E, 0x1F393),
   (0x1F3A0, 0x1F3CA), (0x1F3CF, 0x1F3D3), (0x1F3E0, 0x1F3F0), (0x1F3F4, 0x1F3F4),
   (0x1F3F8, 0x1F43E), (0x1F440, 0x1F440), (0x1F442, 0x1F4FC), (0x1F4FF, 0x1F53D),
   (0x1F54B, 0x1F54E), (0x1F550, 0x1F567), (0x1F57A, 0x1F57A), (0x1F595, 0x1F596),
   (0x1F5A4, 0x1F5A4), (0x1F5FB, 0x1F64F), (0x1F680, 0x1F6C5), (0x1F6CC, 0x1F6CC),
   (0x1F6D0, 0x1F6D2), (0x1F6D5, 0x1F6D7), (0x1F6DC, 0x1F6DF), (0x1F6EB, 0x1F6EC),
   (0x1F6F4, 0x1F6FC), (0x1F7E0, 0x1F7EB), (0x1F7F0, 0x1F7F0), (0x1F90C, 0x1F93A),
   (0x1F93C, 0x1F945), (0x1F947, 0x1F9FF), (0x1FA70, 0x1FA7C), (0x1FA80, 0x1FA89),
   (0x1FA8F, 0x1FAC6), (0x1FACE, 0x1FADC), (0x1FADF, 0x1FAE9), (0x1FAF0, 0x1FAF8),
   (0x20000, 0x2FFFD), (0x30000, 0x3FFFD)]

/-- `c` takes no room.  The filler of Korean consonants takes the room of the syllable that it
begins, and the joiner of Tifinagh consonants is seen. -/
def isWidthless (c : Char) : Bool :=
  c != '\u115f' && c != '\u2d7f' &&
    (ignorableRanges.has c || extendingMarks.has c || syllablePartRanges.has c ||
      attachedSignRanges.has c)

/-- The number of cells that `c` takes on its own.  Two Khmer signs stand for two and for three
letters. -/
def charWidth (c : Char) : Nat :=
  if c.toNat < 0x80 then 1
  else if isWidthless c then 0
  else if c = '\u17d8' then 3
  else if c = '\u17a4' ∨ wideRanges.has c then 2
  else 1

/-! ### Graphemes -/

/-- What stands behind a character, as far as it changes the width. -/
inductive Following where
  | nothing
  | lineFeed
  /-- A selector of the text form. -/
  | textSelector
  /-- A selector of the emoji form; `joined` tells whether an emoji is joined behind it. -/
  | emojiSelector (joined : Bool)
  | emoji
  /-- A skin tone. -/
  | modifier
  /-- A joiner and an emoji. -/
  | joiner
deriving DecidableEq, Repr

namespace Following

/-- The width of `c` where nothing behind it matters, and what it is to the character before. -/
def plain (c : Char) : Nat × Following :=
  (charWidth c,
    if c = '\n' then lineFeed
    else if c = Emoji.textSelector then textSelector
    else if c = Emoji.emojiSelector then emojiSelector false
    else if Emoji.modifier.has c then modifier
    else if Emoji.presentation.has c then emoji
    else nothing)

/-- The emoji in squares that stand for Japanese words, which keep their width as text. -/
def squaredWords : CodeRanges := [(0x1F200, 0x1F2FF)]

/-- The width of `c` in front of what follows, and what it is to the character before. -/
def read (c : Char) : Following → Nat × Following
  | nothing => plain c
  | lineFeed => if c = '\r' then (0, nothing) else plain c
  | textSelector =>
    if Emoji.textForm.has c && !squaredWords.has c then (1, nothing) else plain c
  | emojiSelector joined =>
    if Emoji.textDefault.has c || Emoji.textForm.has c then (if joined then 0 else 2, emoji)
    else plain c
  | emoji => if c = Emoji.joiner then (0, joiner) else plain c
  | modifier =>
    if Emoji.modifierBase.has c then (0, emoji)
    else if c = Emoji.joiner then (0, joiner)
    else plain c
  | joiner =>
    if c = Emoji.emojiSelector then (0, emojiSelector true)
    else if Emoji.modifier.has c then (0, modifier)
    else if Emoji.presentation.has c then (0, emoji)
    else plain c

end Following

/-- The width of a grapheme in cells, and what it is to a character before it. -/
def Grapheme.measure : Grapheme → Nat × Following
  | [] => (0, .nothing)
  | c :: cs =>
    let (width, following) := measure cs
    let (n, following) := following.read c
    (n + width, following)

/-- The number of cells that a grapheme takes. -/
def Grapheme.width (g : Grapheme) : Nat := g.measure.1

end ModalEditor
