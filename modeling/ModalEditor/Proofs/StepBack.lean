import ModalEditor.Proofs.SpanText
import ModalEditor.Proofs.Typing

/-!
# Stepping back

Stepping back over `n` characters goes along the line, and over the line breaks before it, until
all are passed or the text starts.  `Lines.WalksBack` are the runs of this walk, in which every
number that is taken away is there to be taken; there is exactly one from each place, and it ends
where `Lines.stepBack` says (`Lines.walksBack_iff`).

On offsets stepping back is subtraction that stops at zero.  Typing a text moves forward by as many
characters as it has, so stepping back by that number from where the typing led returns to where it
began (`Lines.stepBack_advance`).
-/

namespace ModalEditor

namespace Position

/-- Where typing leads is decided by the last line feed of the text. -/
theorem advance_lineFeed (p : Position) (s : List Char) {t : List Char} (h : '\n' ∉ t) :
    p.advance (s ++ '\n' :: t) = ⟨p.line + (s.count '\n' + 1), t.length⟩ := by
  rw [advance_append, advance_cons, after_lineFeed, advance_of_notMem _ h, line_advance,
    Nat.zero_add, Nat.add_assoc]

end Position

namespace Lines

variable {ls : Lines} {p q : Position} {n : Nat}

/-! ### The walk back -/

/-- A walk from a place back over a number of characters leads to a place.  What is passed is
written as a summand of what there is to pass, so that no walk goes below zero. -/
inductive WalksBack (ls : Lines) : Position → Nat → Position → Prop where
  /-- Nothing is left to pass. -/
  | done (p : Position) : WalksBack ls p 0 p
  /-- What is left stands on the line. -/
  | along (line column : Nat) {n : Nat} (h : 0 < n) :
      WalksBack ls ⟨line, column + n⟩ n ⟨line, column⟩
  /-- The text starts before all is passed. -/
  | start {column n : Nat} (h : column < n) : WalksBack ls ⟨0, column⟩ n ⟨0, 0⟩
  /-- The line is passed, and the line break before it. -/
  | up {line column n : Nat} {q : Position} (h : WalksBack ls (ls.lineEnd line) n q) :
      WalksBack ls ⟨line + 1, column⟩ (column + 1 + n) q

/-- A walk that does not leave the line. -/
theorem WalksBack.of_le (line : Nat) {column : Nat} (h : n ≤ column) :
    ls.WalksBack ⟨line, column⟩ n ⟨line, column - n⟩ := by
  obtain ⟨k, rfl⟩ := Nat.exists_eq_add_of_le' h
  rw [Nat.add_sub_cancel]
  cases n with
  | zero => exact .done _
  | succ n => exact .along line k (Nat.succ_pos n)

/-- Each walk ends. -/
theorem walksBack_retreat (ls : Lines) (line column n : Nat) :
    ls.WalksBack ⟨line, column⟩ n (ls.retreat line column n) := by
  induction line generalizing column n with
  | zero =>
    rw [retreat]
    by_cases h : n ≤ column
    · exact .of_le 0 h
    · rw [Nat.sub_eq_zero_of_le (Nat.le_of_not_le h)]
      exact .start (Nat.lt_of_not_le h)
  | succ line ih =>
    rw [retreat]
    split
    · next h => exact .of_le (line + 1) h
    · next h =>
      obtain ⟨k, rfl⟩ := Nat.exists_eq_add_of_le (Nat.lt_of_not_le h)
      rw [Nat.add_sub_cancel_left]
      exact .up (ih (ls.lineLength line) k)

/-- No walk ends anywhere else. -/
theorem WalksBack.eq_retreat (h : ls.WalksBack p n q) : q = ls.retreat p.line p.column n := by
  induction h with
  | done p => cases hline : p.line <;> simp [retreat, Position.ext_iff, hline]
  | along line column h => cases line <;> simp [retreat]
  | start h => rw [retreat, Nat.sub_eq_zero_of_le (Nat.le_of_lt h)]
  | @up line column n q h ih =>
    have hpassed : ¬column + 1 + n ≤ column := by omega
    rw [retreat, if_neg hpassed, Nat.add_sub_cancel_left]
    exact ih

/-- **There is one walk from each place, and it ends where stepping back says.** -/
theorem walksBack_iff : ls.WalksBack (ls.clamp p) n q ↔ q = ls.stepBack p n := by
  constructor
  · exact WalksBack.eq_retreat
  · rintro rfl
    exact walksBack_retreat ls _ _ n

/-- Stepping back leads to the one place at the difference of the offsets. -/
theorem offset_eq_sub_iff (hw : ls.WellFormed) (hq : ls.InRange q) (p : Position) (n : Nat) :
    ls.offset q = ls.offset (ls.clamp p) - n ↔ q = ls.stepBack p n := by
  rw [← offset_stepBack hw.1 p n]
  constructor
  · exact offset_inj hw hq (inRange_stepBack hw.1 p n)
  · rintro rfl
    rfl

/-! ### Back over what has been typed -/

/-- Inserting leaves the place of the insertion, and where typing the text leads is a place behind
it. -/
theorem place_insertAt (hw : ls.WellFormed) (hp : ls.InRange p) (t : List Char) :
    ((ls.insertAt p t).InRange p ∧ (ls.insertAt p t).offset p = ls.offset p) ∧
      (ls.insertAt p t).InRange (p.advance t) ∧
      (ls.insertAt p t).offset (p.advance t) = ls.offset p + t.length := by
  have hw' := wellFormed_insertAt hw p t
  have htext := text_insertAt ls p t
  have hbefore : ls.before p <+: (ls.insertAt p t).text :=
    ⟨t ++ ls.after p, by rw [htext, List.append_assoc]⟩
  have htyped : ls.before p ++ t <+: (ls.insertAt p t).text := ⟨ls.after p, htext.symm⟩
  have hstop : Position.origin.advance (ls.before p ++ t) = p.advance t := by
    rw [Position.advance_append, advance_before hw hp]
  rw [← length_before hp, ← List.length_append]
  exact ⟨place_of_isPrefix hw' hbefore (advance_before hw hp),
    place_of_isPrefix hw' htyped hstop⟩

/-- Stepping back over a text from where typing it led returns to where it was typed. -/
theorem stepBack_advance (hw : ls.WellFormed) (hp : ls.InRange p) (t : List Char) :
    (ls.insertAt p t).stepBack (p.advance t) t.length = p := by
  obtain ⟨⟨hrange, hoffset⟩, hstop, hstopOffset⟩ := place_insertAt hw hp t
  refine ((offset_eq_sub_iff (wellFormed_insertAt hw p t) hrange _ _).1 ?_).symm
  rw [clamp_of_inRange hstop, hstopOffset, hoffset, Nat.add_sub_cancel]

end Lines

namespace Buffer

variable {b : Buffer}

/-- **Stepping back is subtraction of offsets, and undoes insertion.**  From any position the walk
back over any number of characters ends, with nothing taken from less, at the one place whose
offset is the difference, or zero if that is negative.

Where typing a text at a place leads is told by the last line feed of the text.  After inserting the
text there it is a place as many characters behind, and stepping back by that number is back at the
place of the insertion. -/
theorem stepBack_subtracts (hw : b.lines.WellFormed) :
    (∀ (p : Position) (n : Nat),
      let offset : Int := max ((b.lines.offset (b.lines.clamp p) : Int) - n) 0
      b.lines.InRange (b.lines.stepBack p n) ∧
      (∀ q, b.lines.WalksBack (b.lines.clamp p) n q ↔ q = b.lines.stepBack p n) ∧
      ∀ q, b.lines.InRange q → ((b.lines.offset q : Int) = offset ↔ q = b.lines.stepBack p n)) ∧
    ∀ (p : Position) (t : List Char), b.lines.InRange p →
      let stop := p.advance t
      let lines := (b.edit [.insert p t]).lines
      (('\n' ∉ t → stop = ⟨p.line, p.column + t.length⟩) ∧
        ∀ x y, t = x ++ '\n' :: y → '\n' ∉ y →
          stop = ⟨p.line + (x.count '\n' + 1), y.length⟩) ∧
      (lines.InRange stop ∧ lines.offset stop = b.lines.offset p + t.length) ∧
      lines.stepBack stop t.length = p := by
  refine ⟨fun p n => ?_, fun p t hp => ?_⟩
  · refine ⟨Lines.inRange_stepBack hw.1 p n, fun q => Lines.walksBack_iff, fun q hq => ?_⟩
    rw [← Lines.offset_eq_sub_iff hw hq]
    omega
  · intro stop lines
    have hlines : lines = b.lines.insertAt p t := Document.lines_insert_of_inRange hp t
    rw [hlines]
    refine ⟨⟨Position.advance_of_notMem p, ?_⟩, (Lines.place_insertAt hw hp t).2,
      Lines.stepBack_advance hw hp t⟩
    rintro x y rfl hy
    exact Position.advance_lineFeed p x hy

/-- Back over two line breaks and beyond the start of a text; and back over an insertion of two
lines within a line. -/
theorem stepBack_subtracts_twoLines :
    let b : Buffer := .ofText ['a', 'é', '\n', '\n', 'c', 'd']
    let lines := (b.edit [.insert ⟨2, 1⟩ ['x', '\n', 'y', 'z']]).lines
    b.lines.WellFormed ∧
      b.lines.WalksBack ⟨2, 2⟩ 5 ⟨0, 1⟩ ∧ b.lines.offset (b.lines.stepBack ⟨9, 9⟩ 5) = 1 ∧
      b.lines.stepBack ⟨9, 9⟩ 7 = ⟨0, 0⟩ ∧
      lines.InRange ⟨3, 2⟩ ∧ lines.offset ⟨3, 2⟩ = 9 ∧ lines.stepBack ⟨3, 2⟩ 4 = ⟨2, 1⟩ := by
  intro b lines
  have hw : b.lines.WellFormed := Lines.wellFormed_ofForeignText _
  obtain ⟨hback, htyped⟩ := stepBack_subtracts hw
  obtain ⟨-, hwalk, hoffset⟩ := hback ⟨9, 9⟩ 5
  obtain ⟨-, ⟨hrange, hstop⟩, hstep⟩ := htyped ⟨2, 1⟩ ['x', '\n', 'y', 'z'] (by decide)
  have hplace : b.lines.stepBack ⟨9, 9⟩ 5 = ⟨0, 1⟩ := by decide
  have hstart : b.lines.stepBack ⟨9, 9⟩ 7 = ⟨0, 0⟩ :=
    (((hback ⟨9, 9⟩ 7).2.2 ⟨0, 0⟩ (by decide)).1 (by decide)).symm
  exact ⟨hw, (hwalk _).2 hplace.symm, by rw [hplace]; decide, hstart, hrange,
    hstop.trans (by decide), hstep⟩

end Buffer

end ModalEditor
