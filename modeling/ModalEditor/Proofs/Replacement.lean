import ModalEditor.Proofs.Flat

/-!
# Replacing a span

A replacement erases its span and then inserts at the start of the span.  The insertion looks the
start up in the text that is left.  When the start was beyond the end of its line, and the span
reached into a later line, the rest of that later line now continues the line of the start, and the
place found is further on in it, by `Lines.overshoot` characters.

`Buffer.text_replace` says where the text lands.  Where nothing is overshot, in particular where the
start of the span is a place of the text, the replacement is the plain one of the string.
-/

namespace ModalEditor

namespace Lines

variable {ls : Lines} {s : Span} {p q : Position}

/-- How many characters of the text behind a span are left in front of what replaces it. -/
def overshoot (ls : Lines) (s : Span) : Nat :=
  let start := ls.clamp s.start
  let stop := ls.clamp s.stop
  if stop ≤ start then 0
  else min (s.start.column - ls.lineLength start.line) (ls.lineLength stop.line - stop.column)

/-- The line of `p` goes on with what is left of the line of `q`. -/
theorem line_eraseBetween (hp : ls.InRange p) :
    (ls.eraseBetween p q).line p.line =
      (ls.line p.line).take p.column ++ (ls.line q.line).drop q.column := by
  have hlength : (ls.take p.line).length = p.line := List.length_take_of_le (Nat.le_of_lt hp.1)
  rw [eraseBetween, line, List.append_assoc, List.getD_eq_getElem?_getD,
    List.getElem?_append_right (Nat.le_of_eq hlength), hlength, Nat.sub_self]
  rfl

theorem length_eraseBetween (hp : ls.InRange p) :
    (ls.eraseBetween p q).length = p.line + 1 + (ls.length - (q.line + 1)) := by
  have hlength : (ls.take p.line).length = p.line := List.length_take_of_le (Nat.le_of_lt hp.1)
  simp only [eraseBetween, List.length_append, hlength, List.length_singleton, List.length_drop]

/-- The lines before an erased stretch stay, and so do the offsets in the line that it starts in. -/
theorem offset_eraseBetween (hp : ls.InRange p) (n : Nat) :
    (ls.eraseBetween p q).offset ⟨p.line, p.column + n⟩ = ls.offset p + n := by
  have hlength : (ls.take p.line).length = p.line := List.length_take_of_le (Nat.le_of_lt hp.1)
  rw [offset, offset, eraseBetween, List.append_assoc,
    List.take_append_of_le_length (Nat.le_of_eq hlength.symm), List.take_take, Nat.min_self,
    Nat.add_assoc]

theorem overshoot_of_stop_le (h : ls.clamp s.stop ≤ ls.clamp s.start) : ls.overshoot s = 0 :=
  if_pos h

/-- Nothing is overshot if there is nothing to erase, if the span starts within its line, or if it
stops at the end of a line. -/
theorem overshoot_eq_zero_iff :
    ls.overshoot s = 0 ↔ ls.clamp s.stop ≤ ls.clamp s.start ∨
      s.start.column ≤ ls.lineLength (ls.clamp s.start).line ∨
      ls.clamp s.stop = ls.lineEnd (ls.clamp s.stop).line := by
  have hcolumn : (ls.clamp s.stop).column ≤ ls.lineLength (ls.clamp s.stop).line :=
    Nat.min_le_right ..
  have hend : ls.clamp s.stop = ls.lineEnd (ls.clamp s.stop).line ↔
      ls.lineLength (ls.clamp s.stop).line ≤ (ls.clamp s.stop).column := by
    rw [Position.ext_iff]
    simp only [lineEnd, true_and]
    omega
  rw [hend, overshoot]
  by_cases h : ls.clamp s.stop ≤ ls.clamp s.start
  · simp only [h, if_true, true_or]
  · simp only [h, if_false, false_or]
    omega

/-- Where the start of an erased span is found in the text that is left. -/
theorem clamp_eraseBetween (hne : ls ≠ []) (hlt : ls.clamp s.start < ls.clamp s.stop) :
    (ls.eraseBetween (ls.clamp s.start) (ls.clamp s.stop)).clamp s.start =
      ⟨(ls.clamp s.start).line, (ls.clamp s.start).column + ls.overshoot s⟩ := by
  have hp := inRange_clamp hne s.start
  have hq := inRange_clamp hne s.stop
  have hline : (ls.clamp s.start).line = min s.start.line ls.lastLine := rfl
  have hcolumn : (ls.clamp s.start).column =
      min s.start.column (ls.lineLength (ls.clamp s.start).line) := rfl
  rw [overshoot, if_neg (Position.not_le.2 hlt)]
  generalize ls.clamp s.start = p at hp hq hline hcolumn hlt ⊢
  generalize ls.clamp s.stop = q at hq hlt ⊢
  obtain ⟨hpline, hpcolumn⟩ := hp
  obtain ⟨hqline, hqcolumn⟩ := hq
  -- The start stays in its line, which is the last one only if the stop is in it as well.
  have hlength := length_eraseBetween (q := q) ⟨hpline, hpcolumn⟩
  have hlast : min s.start.line (ls.eraseBetween p q).lastLine = p.line := by
    rw [lastLine, hlength]
    rw [lastLine] at hline
    rw [Position.lt_iff] at hlt
    omega
  have hjoined : (ls.eraseBetween p q).lineLength p.line =
      p.column + (ls.lineLength q.line - q.column) := by
    rw [lineLength, line_eraseBetween ⟨hpline, hpcolumn⟩, List.length_append, List.length_drop,
      List.length_take_of_le hpcolumn, lineLength]
  rw [clamp, hlast, hjoined]
  congr 1
  omega

end Lines

namespace Document

variable {d : Document} {s : Span}

/-- What is inserted after erasing a span goes behind what is overshot. -/
theorem offset_clamp_erase (hw : d.lines.WellFormed) (s : Span) :
    (d.erase s).lines.offset ((d.erase s).lines.clamp s.start) =
      d.lines.offset (d.lines.clamp s.start) + d.lines.overshoot s := by
  have hp := Lines.inRange_clamp hw.1 s.start
  rw [erase]
  by_cases hs : d.lines.clamp s.stop ≤ d.lines.clamp s.start
  · rw [if_pos hs, Lines.overshoot_of_stop_le hs, Nat.add_zero]
  · rw [if_neg hs, Lines.clamp_eraseBetween hw.1 (Position.not_le.1 hs),
      Lines.offset_eraseBetween hp]

/-- Erasing takes the text between the ends of the span out of the text. -/
theorem text_erase (h : d.WellFormed) (s : Span) :
    (d.erase s).text = d.text.take (d.lines.offset (d.lines.clamp s.start)) ++
      d.text.drop (max (d.lines.offset (d.lines.clamp s.start))
        (d.lines.offset (d.lines.clamp s.stop))) := by
  refine (congrArg FlatDocument.text (flat_erase h s)).trans ?_
  rw [FlatDocument.erase]
  split
  · next hle =>
    rw [Nat.max_eq_left hle, List.take_append_drop]
    rfl
  · next hle =>
    rw [Nat.max_eq_right (Nat.le_of_not_le hle)]
    rfl

/-- Inserting splices into the text. -/
theorem text_insert (h : d.WellFormed) (p : Position) (t : List Char) :
    (d.insert p t).text = d.text.take (d.lines.offset (d.lines.clamp p)) ++ t ++
      d.text.drop (d.lines.offset (d.lines.clamp p)) :=
  congrArg FlatDocument.text (flat_insert h p t)

theorem text_replace (h : d.WellFormed) (s : Span) (t : List Char) :
    let start := d.lines.offset (d.lines.clamp s.start)
    let stop := d.lines.offset (d.lines.clamp s.stop)
    let rest := d.text.drop (max start stop)
    (d.apply (.replace s t)).text = d.text.take start ++ rest.take (d.lines.overshoot s) ++ t ++
      rest.drop (d.lines.overshoot s) := by
  intro start stop rest
  have hp := Lines.inRange_clamp h.1.1 s.start
  have hlength : (d.text.take start).length = start := by
    rw [text, ← Lines.before_eq_take hp, Lines.length_before hp]
  rw [apply, text_insert (wellFormed_erase h s), offset_clamp_erase h.1, text_erase h]
  change (d.text.take start ++ rest).take (start + _) ++ t ++
    (d.text.take start ++ rest).drop (start + _) = _
  clear_value rest
  generalize d.text.take start = front at hlength
  rw [← hlength, List.take_length_add_append, List.drop_length_add_append]

end Document

namespace Buffer

variable {b : Buffer}

/-- **Where a replacement lands.**  The span is erased, and the new text stands in its place, but
for the characters of the rest that are overshot.  They are none, and the replacement is that of a
slice of the text, if the span starts within its line, or stops at the end of a line, or covers
nothing. -/
theorem text_edit_replace (h : b.document.WellFormed) (s : Span) (t : List Char) :
    let start := b.lines.offset (b.lines.clamp s.start)
    let stop := b.lines.offset (b.lines.clamp s.stop)
    let rest := b.text.drop (max start stop)
    let gap := b.lines.overshoot s
    (b.edit [.replace s t]).text = b.text.take start ++ rest.take gap ++ t ++ rest.drop gap ∧
      (b.lines.clamp s.stop ≤ b.lines.clamp s.start ∨
        s.start.column ≤ b.lines.lineLength (b.lines.clamp s.start).line ∨
        b.lines.clamp s.stop = b.lines.lineEnd (b.lines.clamp s.stop).line →
        (b.edit [.replace s t]).text = b.text.take start ++ t ++ rest) := by
  intro start stop rest gap
  have htext : (b.edit [.replace s t]).text =
      b.text.take start ++ rest.take gap ++ t ++ rest.drop gap := Document.text_replace h s t
  refine ⟨htext, fun hnone => ?_⟩
  have hgap : gap = 0 := Lines.overshoot_eq_zero_iff.2 hnone
  rw [htext, hgap, List.take_zero, List.drop_zero, List.append_nil]

/-- Two replacements in `abc` and `def`, from within the first line and from beyond its end. -/
theorem text_edit_replace_twoLines :
    let b : Buffer := .ofText ['a', 'b', 'c', '\n', 'd', 'e', 'f']
    b.document.WellFormed ∧
      (b.edit [.replace (.between ⟨0, 1⟩ ⟨1, 2⟩) ['X']]).text = ['a', 'X', 'f'] ∧
      (b.edit [.replace (.between ⟨0, 4⟩ ⟨1, 1⟩) ['X']]).text =
        ['a', 'b', 'c', 'e', 'X', 'f'] := by
  intro b
  have h : b.document.WellFormed := Document.wellFormed_ofText _
  exact ⟨h, ((text_edit_replace h _ _).2 (by decide)).trans (by decide),
    (text_edit_replace h _ _).1.trans (by decide)⟩

/-- From beyond the end of a line to within the next one, the new text does not land at the nearest
place to the start of the span. -/
theorem not_text_edit_replace_slice :
    let b : Buffer := .ofText ['a', 'b', 'c', '\n', 'd', 'e', 'f']
    let s : Span := .between ⟨0, 10⟩ ⟨1, 2⟩
    let start := b.lines.offset (b.lines.clamp s.start)
    let stop := b.lines.offset (b.lines.clamp s.stop)
    b.document.WellFormed ∧
      (b.edit [.replace s ['X']]).text = ['a', 'b', 'c', 'f', 'X'] ∧
      (b.edit [.replace s ['X']]).text ≠
        b.text.take start ++ ['X'] ++ b.text.drop (max start stop) :=
  ⟨Document.wellFormed_ofText _, by decide, by decide⟩

end Buffer

end ModalEditor
