import ModalEditor.Text.Document

/-!
# Positions and typed text

The order of positions, and `Position.advance` as an action of texts on positions: typing one text
after another is typing both at once (`advance_append`).  A text without line feed moves along its
line, and after a line feed the column no longer depends on where typing began.

The shifts that edits apply to the ends of a selection follow from this.  An end that lies `m`
characters of text behind a place is again `m` behind it after the edit (`shiftInsert_advance`,
`shiftErase_advance`).
-/

namespace ModalEditor

namespace Position

attribute [ext] Position

variable {p q r : Position} {s t m : List Char}

/-! ### The order -/

protected theorem le_trans (h₁ : p ≤ q) (h₂ : q ≤ r) : p ≤ r := by
  simp only [le_iff] at *; omega

protected theorem le_antisymm (h₁ : p ≤ q) (h₂ : q ≤ p) : p = q := by
  cases p; cases q
  simp only [le_iff, mk.injEq] at *; omega

protected theorem not_le : ¬p ≤ q ↔ q < p := by
  simp only [le_iff, lt_iff]; omega

protected theorem not_lt : ¬p < q ↔ q ≤ p := by
  simp only [le_iff, lt_iff]; omega

protected theorem le_of_lt (h : p < q) : p ≤ q := by
  simp only [le_iff, lt_iff] at *; omega

/-! ### Typing -/

@[simp] theorem advance_nil (p : Position) : p.advance [] = p := rfl

theorem advance_cons (p : Position) (c : Char) (t : List Char) :
    p.advance (c :: t) = (p.after c).advance t := rfl

theorem advance_append (p : Position) (s t : List Char) :
    p.advance (s ++ t) = (p.advance s).advance t := by
  simp [advance]

theorem after_of_ne {c : Char} (h : c ≠ '\n') : p.after c = ⟨p.line, p.column + 1⟩ := by
  simp [after, h]

@[simp] theorem after_lineFeed (p : Position) : p.after '\n' = ⟨p.line + 1, 0⟩ := by
  simp [after]

/-- Typing goes down as many lines as the text has line feeds. -/
theorem line_advance (p : Position) (t : List Char) :
    (p.advance t).line = p.line + t.count '\n' := by
  induction t generalizing p with
  | nil => simp
  | cons c t ih =>
    rw [advance_cons, ih]
    by_cases hc : c = '\n'
    · subst hc; simp; omega
    · simp [after_of_ne hc, hc]

theorem advance_of_notMem (p : Position) (h : '\n' ∉ t) :
    p.advance t = ⟨p.line, p.column + t.length⟩ := by
  induction t generalizing p with
  | nil => rfl
  | cons c t ih =>
    rw [List.mem_cons, not_or] at h
    rw [advance_cons, after_of_ne (Ne.symm h.1), ih _ h.2]
    simp only [List.length_cons, mk.injEq, true_and]; omega

/-- After a line feed the column does not depend on where typing began. -/
theorem column_advance_of_mem (p q : Position) (h : '\n' ∈ t) :
    (p.advance t).column = (q.advance t).column := by
  induction t generalizing p q with
  | nil => simp at h
  | cons c t ih =>
    rw [advance_cons, advance_cons]
    by_cases ht : '\n' ∈ t
    · exact ih _ _ ht
    · have hc : c = '\n' := by simpa [ht, eq_comm] using h
      subst hc
      simp [advance_of_notMem _ ht]

/-- Typing a line and its line feed leads to the start of the next line. -/
theorem advance_line_break (p : Position) (h : '\n' ∉ t) :
    p.advance (t ++ ['\n']) = ⟨p.line + 1, 0⟩ := by
  rw [advance_append, advance_of_notMem p h, advance_cons, after_lineFeed, advance_nil]

theorem lt_after (p : Position) (c : Char) : p < p.after c := by
  by_cases hc : c = '\n' <;> simp [after, hc, lt_iff]

theorem le_advance (p : Position) (t : List Char) : p ≤ p.advance t := by
  induction t generalizing p with
  | nil => exact p.le_refl
  | cons c t ih => exact Position.le_trans (Position.le_of_lt (p.lt_after c)) (ih _)

theorem lt_advance (p : Position) (h : t ≠ []) : p < p.advance t := by
  obtain ⟨c, t, rfl⟩ := List.exists_cons_of_ne_nil h
  have h₁ := p.lt_after c
  have h₂ := (p.after c).le_advance t
  rw [← advance_cons] at h₂
  simp only [le_iff, lt_iff] at *; omega

theorem advance_inj (p : Position) (h : p.advance t = p) : t = [] := by
  by_cases ht : t = []
  · exact ht
  · have := p.lt_advance ht
    rw [h] at this
    simp only [lt_iff] at this; omega

/-! ### Shifts -/

theorem shiftInsert_of_lt (h : p < q) (t : List Char) : p.shiftInsert q t = p := by
  simp [shiftInsert, h]

/-- What lies `m` behind the place of an insertion stays `m` behind the inserted text. -/
theorem shiftInsert_advance (q : Position) (t m : List Char) :
    (q.advance m).shiftInsert q t = (q.advance t).advance m := by
  have hq : ¬q.advance m < q := Position.not_lt.2 (q.le_advance m)
  simp only [shiftInsert, hq, ↓reduceIte]
  by_cases hm : '\n' ∈ m
  · -- another line than that of `q`: only the line numbers move
    have hpos : 0 < m.count '\n' := List.count_pos_iff.2 hm
    have hline : (q.advance m).line ≠ q.line := by rw [line_advance]; omega
    rw [if_neg hline]
    ext
    · simp only [line_advance]; omega
    · exact column_advance_of_mem q (q.advance t) hm
  · rw [advance_of_notMem q hm, advance_of_notMem _ hm]
    simp

theorem shiftErase_of_le (h : p ≤ q) (r : Position) : p.shiftErase q r = p := by
  simp [shiftErase, h]

theorem shiftErase_of_le_stop (h₁ : q ≤ p) (h₂ : p ≤ r) : p.shiftErase q r = q := by
  by_cases h : p ≤ q
  · rw [shiftErase_of_le h, Position.le_antisymm h h₁]
  · simp [shiftErase, h, h₂]

/-- What lies `m` behind the end of an erased stretch comes to lie `m` behind its start. -/
theorem shiftErase_advance (q : Position) (t m : List Char) :
    ((q.advance t).advance m).shiftErase q (q.advance t) = q.advance m := by
  by_cases hm : m = []
  · subst hm
    exact shiftErase_of_le_stop (q.le_advance t) (Position.le_refl _)
  have hlt := (q.advance t).lt_advance hm
  have hstop : ¬(q.advance t).advance m ≤ q.advance t := Position.not_le.2 hlt
  have hstart : ¬(q.advance t).advance m ≤ q := fun h =>
    hstop (Position.le_trans h (q.le_advance t))
  simp only [shiftErase, hstart, hstop, ↓reduceIte]
  by_cases hn : '\n' ∈ m
  · have hpos : 0 < m.count '\n' := List.count_pos_iff.2 hn
    have hline : ((q.advance t).advance m).line ≠ (q.advance t).line := by
      rw [line_advance]; omega
    rw [if_neg hline]
    ext
    · simp only [line_advance]; omega
    · exact column_advance_of_mem (q.advance t) q hn
  · rw [advance_of_notMem _ hn, advance_of_notMem q hn]
    simp

end Position

end ModalEditor
