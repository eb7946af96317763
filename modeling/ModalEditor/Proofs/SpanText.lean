import ModalEditor.Proofs.Stretches

/-!
# The text of a span

The text of a span is gathered line by line, and is a slice of the whole text: the one between the
offsets of the two ends, moved into the text (`Lines.slice_eq_text`).  Moving the ends inside keeps
the order of their lines, so the span turns around within one line at most, and then it covers
nothing (`Lines.slice_of_stop_le`).

Erasing the span takes this slice out of the text.  It leaves the place where the span started, and
the slice inserted there gives the lines back (`Lines.insertAt_eraseBetween`).
-/

namespace ModalEditor

namespace Lines

variable {ls : Lines} {p q : Position} {s : Span}

/-! ### The slice -/

theorem line_clamp_mono (ls : Lines) (h : p ≤ q) : (ls.clamp p).line ≤ (ls.clamp q).line := by
  rw [Position.le_iff] at h
  simp only [clamp]
  omega

/-- A span whose ends are out of order once they are moved into the text covers nothing. -/
theorem slice_of_stop_le (h : ls.clamp s.stop ≤ ls.clamp s.start) : ls.slice s = [] := by
  have hline := ls.line_clamp_mono s.start_le_stop
  rw [Position.le_iff] at h
  rw [slice, between, if_pos (by omega), Nat.sub_eq_zero_of_le (by omega), List.take_zero]

/-- The text after a place goes on with what lies between it and a later one. -/
theorem between_append_after (hp : ls.InRange p) (hq : ls.InRange q) (hle : p ≤ q) :
    ls.between p q ++ ls.after q = ls.after p := by
  have htext : ls.before p ++ (ls.between p q ++ ls.after q) = ls.before p ++ ls.after p := by
    rw [← List.append_assoc, before_append_between hp hq hle, before_append_after hq,
      before_append_after hp]
  exact List.append_cancel_left htext

theorem offset_add_length_between (hp : ls.InRange p) (hq : ls.InRange q) (hle : p ≤ q) :
    ls.offset p + (ls.between p q).length = ls.offset q := by
  rw [← length_before hp, ← length_before hq, ← before_append_between hp hq hle,
    List.length_append]

/-- The text of a span is the slice of the text between the offsets of its ends. -/
theorem slice_eq_text (hw : ls.WellFormed) (s : Span) :
    ls.slice s = (ls.text.drop (ls.offset (ls.clamp s.start))).take
      (ls.offset (ls.clamp s.stop) - ls.offset (ls.clamp s.start)) := by
  have hp := inRange_clamp hw.1 s.start
  have hq := inRange_clamp hw.1 s.stop
  by_cases hle : ls.clamp s.start ≤ ls.clamp s.stop
  · rw [← offset_add_length_between hp hq hle, Nat.add_sub_cancel_left, ← after_eq_drop hp,
      ← between_append_after hp hq hle, List.take_left]
    rfl
  · have hstop := Position.le_of_not_le hle
    rw [slice_of_stop_le hstop, Nat.sub_eq_zero_of_le ((le_iff_offset_le hw hq hp).1 hstop),
      List.take_zero]

/-! ### Erasing and inserting again -/

theorem insertAt_nil (hw : ls.WellFormed) (hp : ls.InRange p) : ls.insertAt p [] = ls := by
  refine eq_of_text_eq (wellFormed_insertAt hw p []) hw ?_
  rw [text_insertAt, List.append_nil, before_append_after hp]

/-- Erasing leaves the place where the erased text started, and the text before it. -/
theorem place_eraseBetween (hw : ls.WellFormed) (hp : ls.InRange p) (hq : ls.InRange q)
    (hle : p ≤ q) : (ls.eraseBetween p q).InRange p ∧
      (ls.eraseBetween p q).offset p = ls.offset p := by
  obtain ⟨hrange, hoffset⟩ := place_shiftErase hw hp hp hq hle
  rw [Position.shiftErase_of_le p.le_refl] at hrange hoffset
  rw [FlatDocument.shiftErase, if_pos (Nat.le_refl _)] at hoffset
  exact ⟨hrange, hoffset⟩

/-- What is erased, inserted again, gives the lines back. -/
theorem insertAt_eraseBetween (hw : ls.WellFormed) (hp : ls.InRange p) (hq : ls.InRange q)
    (hle : p ≤ q) : (ls.eraseBetween p q).insertAt p (ls.between p q) = ls := by
  obtain ⟨hrange, hoffset⟩ := place_eraseBetween hw hp hq hle
  rw [← length_before hp] at hoffset
  have hbefore : (ls.eraseBetween p q).before p = ls.before p := by
    rw [before_eq_take hrange, hoffset, text_eraseBetween, List.take_left]
  have hafter : (ls.eraseBetween p q).after p = ls.after q := by
    rw [after_eq_drop hrange, hoffset, text_eraseBetween, List.drop_left]
  refine eq_of_text_eq (wellFormed_insertAt (wellFormed_eraseBetween hw p q) p _) hw ?_
  rw [text_insertAt, hbefore, hafter, before_append_between hp hq hle, before_append_after hq]

end Lines

namespace Document

variable {d : Document} {s : Span}

theorem lines_erase_of_stop_le (h : d.lines.clamp s.stop ≤ d.lines.clamp s.start) :
    (d.erase s).lines = d.lines := by
  rw [erase, if_pos h]

theorem lines_erase_of_lt (h : d.lines.clamp s.start < d.lines.clamp s.stop) :
    (d.erase s).lines = d.lines.eraseBetween (d.lines.clamp s.start) (d.lines.clamp s.stop) := by
  rw [erase, if_neg (Position.not_le.2 h)]

theorem lines_insert_of_inRange {p : Position} (h : d.lines.InRange p) (t : List Char) :
    (d.insert p t).lines = d.lines.insertAt p t := by
  show d.lines.insertAt (d.lines.clamp p) t = _
  rw [Lines.clamp_of_inRange h]

/-- Erasing a span takes its text out of the text. -/
theorem text_erase_slice (hw : d.lines.WellFormed) (s : Span) :
    (d.erase s).text = d.text.take (d.lines.offset (d.lines.clamp s.start)) ++
      d.text.drop (d.lines.offset (d.lines.clamp s.start) + (d.lines.slice s).length) := by
  have hp := Lines.inRange_clamp hw.1 s.start
  have hq := Lines.inRange_clamp hw.1 s.stop
  by_cases hstop : d.lines.clamp s.stop ≤ d.lines.clamp s.start
  · rw [text, lines_erase_of_stop_le hstop, Lines.slice_of_stop_le hstop, List.length_nil,
      Nat.add_zero, text, List.take_append_drop]
  · have hlt := Position.not_le.1 hstop
    rw [text, lines_erase_of_lt hlt, Lines.text_eraseBetween, Lines.slice,
      Lines.offset_add_length_between hp hq (Position.le_of_lt hlt), text,
      Lines.before_eq_take hp, Lines.after_eq_drop hq]

/-- The text of an erased span, inserted where the span started, gives the lines back. -/
theorem lines_insert_erase (hw : d.lines.WellFormed) (s : Span) :
    ((d.erase s).insert (d.lines.clamp s.start) (d.lines.slice s)).lines = d.lines := by
  have hp := Lines.inRange_clamp hw.1 s.start
  have hq := Lines.inRange_clamp hw.1 s.stop
  by_cases hstop : d.lines.clamp s.stop ≤ d.lines.clamp s.start
  · have hlines := lines_erase_of_stop_le hstop
    rw [lines_insert_of_inRange (by rwa [hlines]), hlines, Lines.slice_of_stop_le hstop,
      Lines.insertAt_nil hw hp]
  · have hlt := Position.not_le.1 hstop
    have hlines := lines_erase_of_lt hlt
    have hle := Position.le_of_lt hlt
    rw [lines_insert_of_inRange (by rw [hlines]; exact (Lines.place_eraseBetween hw hp hq hle).1),
      hlines]
    exact Lines.insertAt_eraseBetween hw hp hq hle

end Document

namespace Buffer

variable {b : Buffer}

/-- **The text of a span is the slice that erasing it removes.**  Wherever the ends of the span are,
its text is the slice of the whole text between the offsets of the ends, moved into the text;
nothing, if the second is not after the first.  Erasing the span removes exactly this slice, and
inserting the slice where the span started restores the lines. -/
theorem slice_erased (hw : b.lines.WellFormed) (s : Span) :
    let p := b.lines.clamp s.start
    let q := b.lines.clamp s.stop
    let slice := b.lines.slice s
    slice = (b.text.drop (b.lines.offset p)).take (b.lines.offset q - b.lines.offset p) ∧
      (q ≤ p → slice = []) ∧
      (b.edit [.erase s]).text = b.text.take (b.lines.offset p) ++
        b.text.drop (b.lines.offset p + slice.length) ∧
      ((b.edit [.erase s]).edit [.insert p slice]).lines = b.lines :=
  ⟨Lines.slice_eq_text hw s, Lines.slice_of_stop_le, Document.text_erase_slice hw s,
    Document.lines_insert_erase hw s⟩

/-- A span over two line breaks that stops beyond the end of the text, and one that turns around
when its ends are moved into the text. -/
theorem slice_erased_beyond :
    let b : Buffer := .ofText ['a', 'b', '\n', 'é', '\n', 'c', 'd']
    let s : Span := .between ⟨0, 1⟩ ⟨9, 1⟩
    let turned : Span := .between ⟨5, 2⟩ ⟨6, 0⟩
    b.lines.WellFormed ∧
      b.lines.slice s = ['b', '\n', 'é', '\n', 'c'] ∧
      (b.edit [.erase s]).text = ['a', 'd'] ∧
      ((b.edit [.erase s]).edit [.insert ⟨0, 1⟩ (b.lines.slice s)]).lines = b.lines ∧
      b.lines.clamp turned.stop < b.lines.clamp turned.start ∧ b.lines.slice turned = [] ∧
      ((b.edit [.erase turned]).edit [.insert ⟨2, 2⟩ []]).lines = b.lines := by
  intro b s turned
  have hw : b.lines.WellFormed := Lines.wellFormed_ofForeignText _
  obtain ⟨hslice, -, htext, hlines⟩ := slice_erased hw s
  obtain ⟨-, hnothing, -, hlines'⟩ := slice_erased hw turned
  have hempty : b.lines.slice turned = [] := hnothing (by decide)
  rw [hempty] at hlines'
  exact ⟨hw, hslice.trans (by decide), htext.trans (by decide), hlines, by decide, hempty, hlines'⟩

end Buffer

end ModalEditor
