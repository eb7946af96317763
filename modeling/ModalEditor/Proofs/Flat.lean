import ModalEditor.Buffer
import ModalEditor.Proofs.Offset

/-!
# Documents as flat strings

Forgetting its lines, a document is one string with two offsets into it (`Document.flat`).  Edits of
the lines are the plain edits of that string: an insertion is a splice (`Document.flat_insert`), an
erased span is a slice taken out (`Document.flat_erase`), and the ends of the selection move by
arithmetic on offsets alone.

Both need that the document is well formed, and both keep it so; an edit given by positions outside
the text acts at the nearest places.
-/

namespace ModalEditor

/-- A string with a selection given by two offsets. -/
structure FlatDocument where
  text : List Char
  anchor : Nat
  active : Nat
deriving DecidableEq, Repr

namespace FlatDocument

variable (f : FlatDocument)

/-- Where offset `o` goes when `n` characters are inserted at offset `a`. -/
def shiftInsert (o a n : Nat) : Nat := if o < a then o else o + n

/-- Where offset `o` goes when the characters from offset `a` to offset `b` are taken out. -/
def shiftErase (o a b : Nat) : Nat := if o ≤ a then o else if o ≤ b then a else o - (b - a)

/-- Insert `t` at offset `a`. -/
def insert (a : Nat) (t : List Char) : FlatDocument where
  text := f.text.take a ++ t ++ f.text.drop a
  anchor := shiftInsert f.anchor a t.length
  active := shiftInsert f.active a t.length

/-- Take out the slice from offset `a` to offset `b`; nothing, if it ends before it starts. -/
def erase (a b : Nat) : FlatDocument :=
  if b ≤ a then f
  else
    { text := f.text.take a ++ f.text.drop b
      anchor := shiftErase f.anchor a b
      active := shiftErase f.active a b }

end FlatDocument

namespace Lines

variable {ls ms : Lines} {t : List Char} {p q r : Position}

theorem place_of_isPrefix (hw : ms.WellFormed) (h : t <+: ms.text)
    (hp : Position.origin.advance t = p) : ms.InRange p ∧ ms.offset p = t.length := by
  subst hp
  exact ⟨(inRange_advance hw h).1, offset_advance hw h⟩

/-- The text between two places is a front part of the text after the first. -/
theorem isPrefix_after (hp : ls.InRange p) (hq : ls.InRange q) {m : List Char}
    (h : ls.before q = ls.before p ++ m) : m <+: ls.after p := by
  have : ls.before p ++ m <+: ls.before p ++ ls.after p := by
    rw [← h, before_append_after hp]; exact isPrefix_before hq
  exact (List.prefix_append_right_inj _).1 this

/-- A place stays a place under an insertion at the place `q`, and its offset shifts. -/
theorem place_shiftInsert (hw : ls.WellFormed) (hp : ls.InRange p) (hq : ls.InRange q)
    (t : List Char) :
    (ls.insertAt q t).InRange (p.shiftInsert q t) ∧
      (ls.insertAt q t).offset (p.shiftInsert q t) =
        FlatDocument.shiftInsert (ls.offset p) (ls.offset q) t.length := by
  have hw' := wellFormed_insertAt hw q t
  have htext := text_insertAt ls q t
  by_cases h : ls.offset p < ls.offset q
  · -- before the insertion
    obtain ⟨m, hm, -, -⟩ := exists_before_eq_append hw hp hq (Nat.le_of_lt h)
    have hlt : p < q := (lt_iff_offset_lt hw hp hq).2 h
    have hpre : ls.before p <+: (ls.insertAt q t).text :=
      ⟨m ++ t ++ ls.after q, by rw [htext, hm]; simp⟩
    rw [Position.shiftInsert_of_lt hlt, FlatDocument.shiftInsert, if_pos h, ← length_before hp]
    exact place_of_isPrefix hw' hpre (advance_before hw hp)
  · -- at the insertion or after it
    obtain ⟨m, hm, hadv, hlen⟩ := exists_before_eq_append hw hq hp (Nat.le_of_not_lt h)
    have hpre : ls.before q ++ t ++ m <+: (ls.insertAt q t).text := by
      rw [htext]; exact (List.prefix_append_right_inj _).2 (isPrefix_after hq hp hm)
    have hplace : Position.origin.advance (ls.before q ++ t ++ m) = p.shiftInsert q t := by
      rw [hadv, Position.shiftInsert_advance, Position.advance_append, Position.advance_append,
        advance_before hw hq]
    obtain ⟨h₁, h₂⟩ := place_of_isPrefix hw' hpre hplace
    refine ⟨h₁, h₂.trans ?_⟩
    rw [FlatDocument.shiftInsert, if_neg h, hlen, ← length_before hq]
    simp only [List.length_append]; omega

/-- A place stays a place when the text between the places `q` and `r` is erased, and its offset
shifts. -/
theorem place_shiftErase (hw : ls.WellFormed) (hp : ls.InRange p) (hq : ls.InRange q)
    (hr : ls.InRange r) (h : q ≤ r) :
    (ls.eraseBetween q r).InRange (p.shiftErase q r) ∧
      (ls.eraseBetween q r).offset (p.shiftErase q r) =
        FlatDocument.shiftErase (ls.offset p) (ls.offset q) (ls.offset r) := by
  have hw' := wellFormed_eraseBetween hw q r
  have htext := text_eraseBetween ls q r
  have hqr := (le_iff_offset_le hw hq hr).1 h
  by_cases hpq : ls.offset p ≤ ls.offset q
  · -- before the erased text
    obtain ⟨m, hm, -, -⟩ := exists_before_eq_append hw hp hq hpq
    have hpre : ls.before p <+: (ls.eraseBetween q r).text :=
      ⟨m ++ ls.after r, by rw [htext, hm]; simp⟩
    rw [Position.shiftErase_of_le ((le_iff_offset_le hw hp hq).2 hpq), FlatDocument.shiftErase,
      if_pos hpq, ← length_before hp]
    exact place_of_isPrefix hw' hpre (advance_before hw hp)
  by_cases hpr : ls.offset p ≤ ls.offset r
  · -- in the erased text
    have hqp : q ≤ p := (le_iff_offset_le hw hq hp).2 (by omega)
    have hpre : ls.before q <+: (ls.eraseBetween q r).text := ⟨ls.after r, htext.symm⟩
    rw [Position.shiftErase_of_le_stop hqp ((le_iff_offset_le hw hp hr).2 hpr),
      FlatDocument.shiftErase, if_neg hpq, if_pos hpr, ← length_before hq]
    exact place_of_isPrefix hw' hpre (advance_before hw hq)
  · -- after the erased text
    obtain ⟨d, -, hd, -⟩ := exists_before_eq_append hw hq hr hqr
    obtain ⟨m, hm, hadv, hlen⟩ := exists_before_eq_append hw hr hp (by omega)
    have hpre : ls.before q ++ m <+: (ls.eraseBetween q r).text := by
      rw [htext]; exact (List.prefix_append_right_inj _).2 (isPrefix_after hr hp hm)
    have hplace : Position.origin.advance (ls.before q ++ m) = p.shiftErase q r := by
      rw [hadv, hd, Position.shiftErase_advance, Position.advance_append, advance_before hw hq]
    obtain ⟨h₁, h₂⟩ := place_of_isPrefix hw' hpre hplace
    refine ⟨h₁, h₂.trans ?_⟩
    rw [FlatDocument.shiftErase, if_neg hpq, if_neg hpr, List.length_append, length_before hq]
    omega

end Lines

namespace Document

variable {d : Document}

instance : Decidable d.WellFormed := inferInstanceAs (Decidable (_ ∧ _))

/-- The document without its lines. -/
def flat (d : Document) : FlatDocument where
  text := d.text
  anchor := d.lines.offset d.selection.anchor
  active := d.lines.offset d.selection.active

/-- The document that holds a text from outside is well formed. -/
theorem wellFormed_ofText (t : List Char) : (ofText t).WellFormed := by
  have hw := Lines.wellFormed_ofForeignText t
  have hpos := List.length_pos_iff.2 hw.1
  have horigin : (Lines.ofForeignText t).InRange .origin := ⟨hpos, Nat.zero_le _⟩
  exact ⟨hw, horigin, horigin⟩

theorem wellFormed_select (h : d.lines.WellFormed) (s : Selection) : (d.select s).WellFormed :=
  ⟨h, Lines.inRange_clamp h.1 _, Lines.inRange_clamp h.1 _⟩

theorem wellFormed_insert (h : d.WellFormed) (p : Position) (t : List Char) :
    (d.insert p t).WellFormed := by
  obtain ⟨hw, ha, hc⟩ := h
  have hp := Lines.inRange_clamp hw.1 p
  exact ⟨Lines.wellFormed_insertAt hw _ t, (Lines.place_shiftInsert hw ha hp t).1,
    (Lines.place_shiftInsert hw hc hp t).1⟩

theorem wellFormed_erase (h : d.WellFormed) (s : Span) : (d.erase s).WellFormed := by
  obtain ⟨hw, ha, hc⟩ := h
  have hp := Lines.inRange_clamp hw.1 s.start
  have hq := Lines.inRange_clamp hw.1 s.stop
  rw [erase]
  by_cases hs : d.lines.clamp s.stop ≤ d.lines.clamp s.start
  · rw [if_pos hs]; exact ⟨hw, ha, hc⟩
  · have hle := Position.le_of_not_le hs
    rw [if_neg hs]
    exact ⟨Lines.wellFormed_eraseBetween hw _ _, (Lines.place_shiftErase hw ha hp hq hle).1,
      (Lines.place_shiftErase hw hc hp hq hle).1⟩

theorem wellFormed_apply (h : d.WellFormed) (e : Edit) : (d.apply e).WellFormed := by
  cases e with
  | insert p t => exact wellFormed_insert h p t
  | erase s => exact wellFormed_erase h s
  | replace s t => exact wellFormed_insert (wellFormed_erase h s) s.start t

theorem wellFormed_applyAll (h : d.WellFormed) (es : List Edit) : (d.applyAll es).WellFormed := by
  induction es generalizing d with
  | nil => exact h
  | cons e es ih => exact ih (wellFormed_apply h e)

/-- An insertion splices the text in at the offset of the place. -/
theorem flat_insert (h : d.WellFormed) (p : Position) (t : List Char) :
    (d.insert p t).flat = d.flat.insert (d.lines.offset (d.lines.clamp p)) t := by
  obtain ⟨hw, ha, hc⟩ := h
  have hp := Lines.inRange_clamp hw.1 p
  have htext : (d.insert p t).text = d.lines.text.take (d.lines.offset (d.lines.clamp p)) ++ t ++
      d.lines.text.drop (d.lines.offset (d.lines.clamp p)) := by
    rw [← Lines.before_eq_take hp, ← Lines.after_eq_drop hp]
    exact Lines.text_insertAt d.lines _ t
  have ha' := (Lines.place_shiftInsert hw ha hp t).2
  have hc' := (Lines.place_shiftInsert hw hc hp t).2
  simp only [flat, FlatDocument.insert, FlatDocument.mk.injEq]
  exact ⟨htext, ha', hc'⟩

/-- Erasing a span takes the slice between the offsets of its ends out of the text. -/
theorem flat_erase (h : d.WellFormed) (s : Span) :
    (d.erase s).flat = d.flat.erase (d.lines.offset (d.lines.clamp s.start))
      (d.lines.offset (d.lines.clamp s.stop)) := by
  obtain ⟨hw, ha, hc⟩ := h
  have hp := Lines.inRange_clamp hw.1 s.start
  have hq := Lines.inRange_clamp hw.1 s.stop
  have hiff := Lines.le_iff_offset_le hw hq hp
  rw [erase, FlatDocument.erase]
  by_cases hs : d.lines.clamp s.stop ≤ d.lines.clamp s.start
  · rw [if_pos hs, if_pos (hiff.1 hs)]
  · have hle := Position.le_of_not_le hs
    have htext := Lines.text_eraseBetween d.lines (d.lines.clamp s.start) (d.lines.clamp s.stop)
    rw [Lines.before_eq_take hp, Lines.after_eq_drop hq] at htext
    rw [if_neg hs, if_neg (mt hiff.2 hs)]
    simp only [flat, FlatDocument.mk.injEq]
    exact ⟨htext, (Lines.place_shiftErase hw ha hp hq hle).2,
      (Lines.place_shiftErase hw hc hp hq hle).2⟩

end Document

namespace Buffer

/-- **Editing lines is editing a string.**  An insertion and an erased span, each one edit of the
buffer, act on the flat document as a splice and as a slice taken out, and leave both ends of the
selection in the text. -/
theorem flat_edit {b : Buffer} (h : b.document.WellFormed) :
    (∀ (p : Position) (t : List Char),
      (b.edit [.insert p t]).document.WellFormed ∧
      (b.edit [.insert p t]).document.flat =
        b.document.flat.insert (b.lines.offset (b.lines.clamp p)) t) ∧
    ∀ s : Span,
      (b.edit [.erase s]).document.WellFormed ∧
      (b.edit [.erase s]).document.flat =
        b.document.flat.erase (b.lines.offset (b.lines.clamp s.start))
          (b.lines.offset (b.lines.clamp s.stop)) :=
  ⟨fun p t => ⟨Document.wellFormed_insert h p t, Document.flat_insert h p t⟩,
    fun s => ⟨Document.wellFormed_erase h s, Document.flat_erase h s⟩⟩

/-- Two edits of the three lines `aé`, `c`, and an empty one, of which the first starts beyond the
end of its line and the second stops beyond the end of the text. -/
theorem flat_edit_threeLines :
    let b : Buffer := { document := ⟨[['a', 'é'], ['c'], []], ⟨⟨0, 1⟩, ⟨2, 0⟩⟩⟩ }
    b.document.WellFormed ∧
      (b.edit [.insert ⟨0, 9⟩ ['x', '\n', 'y']]).document.flat =
        ⟨['a', 'é', 'x', '\n', 'y', '\n', 'c', '\n'], 1, 8⟩ ∧
      (b.edit [.erase (.between ⟨1, 0⟩ ⟨7, 0⟩)]).document.flat = ⟨['a', 'é', '\n'], 1, 3⟩ := by
  intro b
  have h : b.document.WellFormed := by decide
  obtain ⟨hinsert, herase⟩ := flat_edit h
  refine ⟨h, ((hinsert _ _).2).trans (by decide), ((herase _).2).trans (by decide)⟩

end Buffer

end ModalEditor
