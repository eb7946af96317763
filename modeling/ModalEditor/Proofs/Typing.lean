import ModalEditor.Proofs.Flat

/-!
# Typing and erasing at the cursor

The cursor splits the text into what is before it and what is after it (`Document.Splits`).  Typing
puts text at the end of what is before, and stepping back takes characters off that end, whatever
lines they stand in: a step back goes down by one offset, over a line break as over a character
(`Lines.offset_stepBack`).
-/

namespace ModalEditor

namespace Lines

variable {ls : Lines} {p : Position} {x y : List Char}

/-! ### Stepping back -/

/-- The first place of a line is one character behind the end of the line before. -/
theorem offset_succ (ls : Lines) {line : Nat} (h : line < ls.length) (column : Nat) :
    ls.offset ⟨line + 1, column⟩ = ls.offset (ls.lineEnd line) + 1 + column := by
  simp only [offset, lineEnd, List.take_add_one, List.getElem?_eq_getElem h, lineLength,
    line_eq_getElem h, Option.toList_some, List.flatMap_append, List.flatMap_singleton,
    List.length_append, List.length_singleton]
  omega

theorem inRange_retreat {line column : Nat} (h : ls.InRange ⟨line, column⟩) (n : Nat) :
    ls.InRange (ls.retreat line column n) := by
  induction line generalizing column n with
  | zero =>
    rw [retreat]
    exact ⟨h.1, Nat.le_trans (Nat.sub_le ..) h.2⟩
  | succ line ih =>
    have hline : line < ls.length := Nat.lt_of_succ_lt h.1
    rw [retreat]
    split
    · exact ⟨h.1, Nat.le_trans (Nat.sub_le ..) h.2⟩
    · exact ih ⟨hline, Nat.le_refl _⟩ _

/-- Stepping back from line to line goes down offset by offset. -/
theorem offset_retreat {line column : Nat} (h : line < ls.length) (n : Nat) :
    ls.offset (ls.retreat line column n) = ls.offset ⟨line, column⟩ - n := by
  induction line generalizing column n with
  | zero => simp [retreat, offset]
  | succ line ih =>
    have hline : line < ls.length := Nat.lt_of_succ_lt h
    rw [retreat]
    split
    · next hn =>
      rw [offset_succ ls hline, offset_succ ls hline]
      omega
    · next hn =>
      -- The line break counts as a character, and the way goes on from the end of the line before.
      rw [ih hline, offset_succ ls hline, lineEnd]
      omega

theorem inRange_stepBack (h : ls ≠ []) (p : Position) (n : Nat) : ls.InRange (ls.stepBack p n) :=
  inRange_retreat (inRange_clamp h p) n

/-- A place `n` steps back has an offset `n` less. -/
theorem offset_stepBack (h : ls ≠ []) (p : Position) (n : Nat) :
    ls.offset (ls.stepBack p n) = ls.offset (ls.clamp p) - n :=
  offset_retreat (inRange_clamp h p).1 n

theorem before_stepBack (hp : ls.InRange p) (n : Nat) :
    ls.before (ls.stepBack p n) = (ls.before p).take ((ls.before p).length - n) := by
  have hls : ls ≠ [] := List.length_pos_iff.1 (Nat.lt_of_le_of_lt (Nat.zero_le _) hp.1)
  have hoffset := offset_stepBack hls p n
  rw [clamp_of_inRange hp] at hoffset
  rw [before_eq_take (inRange_stepBack hls p n), hoffset, length_before hp, before_eq_take hp,
    List.take_take, Nat.min_eq_left (Nat.sub_le ..)]

/-- Where the text splits in two there is a place. -/
theorem inRange_advance_of_text (hw : ls.WellFormed) (h : ls.text = x ++ y) :
    ls.InRange (Position.origin.advance x) ∧ ls.offset (Position.origin.advance x) = x.length :=
  place_of_isPrefix hw (h ▸ List.prefix_append x y) rfl

end Lines

namespace FlatDocument

variable {f : FlatDocument} {a b : Nat}

theorem text_erase (h : a ≤ b) : (f.erase a b).text = f.text.take a ++ f.text.drop b := by
  rw [erase]
  split
  · next hba =>
    obtain rfl := Nat.le_antisymm h hba
    exact (List.take_append_drop a f.text).symm
  · rfl

/-- What is at the end of an erased stretch comes to its start. -/
theorem active_erase (h : a ≤ b) (hf : f.active = b) : (f.erase a b).active = a := by
  rw [erase]
  split
  · next hba => rw [hf, Nat.le_antisymm h hba]
  · next hba =>
    show shiftErase f.active a b = a
    rw [shiftErase, hf, if_neg hba, if_pos (Nat.le_refl b)]

end FlatDocument

namespace Document

variable {d : Document} {x y : List Char}

theorem WellFormed.cursor (h : d.WellFormed) : d.lines.InRange d.cursor := h.2.2

/-- The cursor is between the text `x` before it and the text `y` after it. -/
structure Splits (d : Document) (x y : List Char) : Prop where
  wellFormed : d.WellFormed
  text : d.text = x ++ y
  offset : d.lines.offset d.cursor = x.length

/-- The cursor of a well-formed document splits its text. -/
theorem WellFormed.splits (h : d.WellFormed) :
    d.Splits (d.text.take (d.lines.offset d.cursor)) (d.text.drop (d.lines.offset d.cursor)) := by
  have hbefore := congrArg List.length (Lines.before_eq_take h.cursor)
  exact ⟨h, (List.take_append_drop ..).symm, (Lines.length_before h.cursor).symm.trans hbefore⟩

namespace Splits

theorem before (h : d.Splits x y) : d.lines.before d.cursor = x := by
  rw [Lines.before_eq_take h.wellFormed.cursor, show d.lines.text = x ++ y from h.text, h.offset,
    List.take_left]

/-- The cursor is where typing the text before it leads. -/
theorem cursor_eq (h : d.Splits x y) : d.cursor = Position.origin.advance x := by
  rw [← h.before]
  exact (Lines.advance_before h.wellFormed.1 h.wellFormed.cursor).symm

/-- Placing the cursor where the text before it ends. -/
theorem select (hw : d.lines.WellFormed) (htext : d.text = x ++ y) :
    (d.select (.caret (Position.origin.advance x))).Splits x y := by
  obtain ⟨hplace, hoffset⟩ := Lines.inRange_advance_of_text hw htext
  refine ⟨wellFormed_select hw _, htext, ?_⟩
  show d.lines.offset (d.lines.clamp (Position.origin.advance x)) = x.length
  rw [Lines.clamp_of_inRange hplace, hoffset]

/-- Inserting at the cursor puts the text before it. -/
theorem insert (h : d.Splits x y) (t : List Char) :
    (d.insert d.cursor t).Splits (x ++ t) y := by
  have hflat := flat_insert h.wellFormed d.cursor t
  rw [Lines.clamp_of_inRange h.wellFormed.cursor, h.offset] at hflat
  have htext : (d.insert d.cursor t).text = _ := congrArg FlatDocument.text hflat
  have hoffset : (d.insert d.cursor t).lines.offset (d.insert d.cursor t).cursor = _ :=
    congrArg FlatDocument.active hflat
  refine ⟨wellFormed_insert h.wellFormed _ t, ?_, ?_⟩
  · rw [htext, FlatDocument.insert, show d.flat.text = x ++ y from h.text, List.take_left,
      List.drop_left]
  · rw [hoffset]
    show FlatDocument.shiftInsert d.flat.active x.length t.length = (x ++ t).length
    rw [show d.flat.active = x.length from h.offset, FlatDocument.shiftInsert,
      if_neg (Nat.lt_irrefl _), List.length_append]

/-- Erasing the `n` characters before the cursor takes them off the text before it. -/
theorem eraseBack (h : d.Splits x y) (n : Nat) :
    (d.erase (.between (d.lines.stepBack d.cursor n) d.cursor)).Splits
      (x.take (x.length - n)) y := by
  have hwf := h.wellFormed
  have hcursor := Lines.clamp_of_inRange hwf.cursor
  have hstart := Lines.inRange_stepBack hwf.1.1 d.cursor n
  have hoffset : d.lines.offset (d.lines.stepBack d.cursor n) = x.length - n := by
    rw [Lines.offset_stepBack hwf.1.1, hcursor, h.offset]
  have hle : d.lines.stepBack d.cursor n ≤ d.cursor := by
    rw [Lines.le_iff_offset_le hwf.1 hstart hwf.cursor, hoffset, h.offset]
    exact Nat.sub_le ..
  rw [Span.between, dif_pos hle]
  have hflat := flat_erase hwf ⟨_, _, hle⟩
  rw [Lines.clamp_of_inRange hstart, hcursor, hoffset, h.offset] at hflat
  refine ⟨wellFormed_erase hwf _, (congrArg FlatDocument.text hflat).trans ?_,
    (congrArg FlatDocument.active hflat).trans ?_⟩
  · rw [FlatDocument.text_erase (Nat.sub_le ..), show d.flat.text = x ++ y from h.text,
      List.drop_left, List.take_append_of_le_length (Nat.sub_le ..)]
  · rw [FlatDocument.active_erase (Nat.sub_le ..) h.offset, List.length_take,
      Nat.min_eq_left (Nat.sub_le ..)]

end Splits

end Document

namespace Buffer

variable {b : Buffer} {x y : List Char}

/-- Typed text comes before the cursor. -/
theorem splits_typeText (h : b.document.Splits x y) (t : List Char) :
    (b.typeText t).document.Splits (x ++ t) y := by
  have hinsert := h.insert t
  have hplace : b.cursor.advance t = Position.origin.advance (x ++ t) := by
    rw [Position.advance_append, ← h.cursor_eq]
    rfl
  have hselect := Document.Splits.select hinsert.wellFormed.1 hinsert.text
  rw [← hplace] at hselect
  exact hselect

/-- Taking back `n` characters, and placing the cursor where they began. -/
theorem splits_takeBack (h : b.document.Splits x y) (n : Nat) :
    let start := b.lines.stepBack b.cursor n
    ((b.edit [.erase (.between start b.cursor)]).setCursor start).document.Splits
      (x.take (x.length - n)) y := by
  intro start
  have herase := h.eraseBack n
  have hplace : start = Position.origin.advance (x.take (x.length - n)) := by
    have hstart := Lines.inRange_stepBack h.wellFormed.1.1 b.cursor n
    have hbefore := Lines.before_stepBack h.wellFormed.cursor n
    rw [h.before] at hbefore
    rw [← hbefore]
    exact (Lines.advance_before h.wellFormed.1 hstart).symm
  have hselect := Document.Splits.select herase.wellFormed.1 herase.text
  rw [← hplace] at hselect
  exact hselect

end Buffer

end ModalEditor
