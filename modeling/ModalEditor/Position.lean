/-!
# Positions, spans and selections

A `Position` is a line and a column, both counted from zero; the column counts characters, not
bytes.  Positions are ordered line first.

* `Span` is a half-open stretch between two positions, smaller end first;
* `Selection` is a directed pair: the anchor stays, the active end is the cursor.
-/

namespace ModalEditor

/-- A place in a text: line and column, counted from zero. -/
structure Position where
  line : Nat
  column : Nat
deriving DecidableEq, Repr, Inhabited

namespace Position

instance : LT Position := ⟨fun p q => p.line < q.line ∨ p.line = q.line ∧ p.column < q.column⟩

instance : LE Position := ⟨fun p q => p.line < q.line ∨ p.line = q.line ∧ p.column ≤ q.column⟩

instance (p q : Position) : Decidable (p < q) :=
  inferInstanceAs (Decidable (_ ∨ _))

instance (p q : Position) : Decidable (p ≤ q) :=
  inferInstanceAs (Decidable (_ ∨ _))

instance : Ord Position := ⟨fun p q => (compare p.line q.line).then (compare p.column q.column)⟩

theorem lt_iff {p q : Position} :
    p < q ↔ p.line < q.line ∨ p.line = q.line ∧ p.column < q.column := Iff.rfl

theorem le_iff {p q : Position} :
    p ≤ q ↔ p.line < q.line ∨ p.line = q.line ∧ p.column ≤ q.column := Iff.rfl

protected theorem le_refl (p : Position) : p ≤ p := by simp [le_iff]

protected theorem le_of_not_le {p q : Position} (h : ¬p ≤ q) : q ≤ p := by
  simp only [le_iff] at *; omega

/-- The start of a text. -/
def origin : Position := ⟨0, 0⟩

/-- The place as people count it, line and column from one. -/
def label (p : Position) : String := s!"{p.line + 1}:{p.column + 1}"

/-- The place reached by typing `c` at `p`. -/
def after (p : Position) (c : Char) : Position :=
  if c = '\n' then ⟨p.line + 1, 0⟩ else ⟨p.line, p.column + 1⟩

/-- The place reached by typing `text` at `p`. -/
def advance (p : Position) (text : List Char) : Position := text.foldl after p

end Position

/-- A half-open stretch of text, from `start` up to `stop`. -/
structure Span where
  start : Position
  stop : Position
  start_le_stop : start ≤ stop := by exact Position.le_refl _
deriving DecidableEq, Repr

namespace Span

/-- The span between two places given in either order. -/
def between (p q : Position) : Span :=
  if h : p ≤ q then ⟨p, q, h⟩ else ⟨q, p, Position.le_of_not_le h⟩

/-- The empty span at `p`. -/
def point (p : Position) : Span := ⟨p, p, Position.le_refl p⟩

/-- The span covers nothing. -/
def isEmpty (s : Span) : Bool := s.start == s.stop

/-- `p` lies in the span, whose end is not part of it. -/
def contains (s : Span) (p : Position) : Bool := s.start ≤ p && p < s.stop

/-- The smallest span that covers both. -/
def cover (s t : Span) : Span :=
  between (if s.start ≤ t.start then s.start else t.start)
    (if s.stop ≤ t.stop then t.stop else s.stop)

end Span

/-- A directed selection: `anchor` stays in place and `active` is the cursor. -/
structure Selection where
  anchor : Position
  active : Position
deriving DecidableEq, Repr, Inhabited

namespace Selection

/-- A selection without extent: a plain cursor. -/
def caret (p : Position) : Selection := ⟨p, p⟩

/-- The selected stretch. -/
def span (s : Selection) : Span := .between s.anchor s.active

/-- Both ends coincide. -/
def isCaret (s : Selection) : Bool := s.anchor == s.active

/-- Move both ends. -/
def map (f : Position → Position) (s : Selection) : Selection := ⟨f s.anchor, f s.active⟩

end Selection

end ModalEditor
