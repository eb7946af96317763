import ModalEditor.Proofs.PasteLines
import ModalEditor.Proofs.TextObject

/-!
# Stretches of a text

A span whose ends lie in the text (`Span.Within`) divides the text in three: what is before it, the
text that it covers, and what is after it (`Span.Within.text_eq`).

Every stretch that a motion covers from a place of the text lies in the text, however often the
motion is applied (`MotionKey.within_reach?`).
-/

namespace ModalEditor

namespace Lines

variable {ls : Lines} {p q : Position}

theorem terminated_append (ls ms : Lines) :
    (ls ++ ms).terminated = ls.terminated ++ ms.terminated := List.flatMap_append

theorem terminated_cons (l : List Char) (ls : Lines) :
    terminated (l :: ls) = l ++ '\n' :: ls.terminated := by
  simp [terminated]

/-- The text from one place to a later one leads on from what is before the one to what is before
the other. -/
theorem before_append_between (hp : ls.InRange p) (hq : ls.InRange q) (hle : p ≤ q) :
    ls.before p ++ ls.between p q = ls.before q := by
  rw [between]
  split
  · next hline =>
    -- On one line the columns decide.
    have hcolumn : p.column ≤ q.column := by
      rw [Position.le_iff] at hle
      omega
    rw [before, before, List.append_assoc, ← hline]
    congr 1
    conv_rhs => rw [← List.take_append_drop p.column (List.take q.column _)]
    rw [List.take_take, Nat.min_eq_left hcolumn, List.drop_take]
  · next hline =>
    have hlt : p.line < q.line := by
      rw [Position.le_iff] at hle
      omega
    let lines := (ls.take q.line).drop (p.line + 1)
    have hlines : (List.range' (p.line + 1) (q.line - (p.line + 1))).map ls.line = lines := by
      have hlast : q.line - 1 < ls.length := Nat.lt_of_le_of_lt (Nat.sub_le ..) hq.1
      have hmap : (List.range' (p.line + 1) (q.line - 1 + 1 - (p.line + 1))).map ls.line =
          ls.block (p.line + 1) (q.line - 1) := map_line_range' hlast
      rwa [block, show q.line - 1 + 1 = q.line by omega] at hmap
    have hfront : ls.take q.line = ls.take p.line ++ ls.line p.line :: lines := by
      have hsplit := List.take_append_drop (p.line + 1) (ls.take q.line)
      rw [List.take_take, Nat.min_eq_left hlt, List.take_succ_eq_append_getElem hp.1,
        ← line_eq_getElem hp.1, List.append_assoc, List.singleton_append] at hsplit
      exact hsplit.symm
    clear_value lines
    rw [before, before, hlines, text_append_line, text_singleton, hfront, terminated_append,
      terminated_cons, terminated_cons]
    simp only [List.append_assoc, List.cons_append]
    rw [← List.append_assoc (List.take _ _) (List.drop _ _), List.take_append_drop]

end Lines

/-! ### Spans in a text -/

/-- Both ends of the span lie in the text. -/
def Span.Within (s : Span) (ls : Lines) : Prop := ls.InRange s.start ∧ ls.InRange s.stop

namespace Span

variable {ls : Lines} {p q : Position} {s t : Span}

theorem Within.before_append_slice (h : s.Within ls) :
    ls.before s.start ++ ls.slice s = ls.before s.stop := by
  rw [Lines.slice, Lines.clamp_of_inRange h.1, Lines.clamp_of_inRange h.2,
    Lines.before_append_between h.1 h.2 s.start_le_stop]

/-- The text is what is before the span, what it covers, and what is after it. -/
theorem Within.text_eq (h : s.Within ls) :
    ls.text = ls.before s.start ++ ls.slice s ++ ls.after s.stop := by
  rw [h.before_append_slice, Lines.before_append_after h.2]

theorem Within.slice_ne_nil (hw : ls.WellFormed) (h : s.Within ls) (hne : s.isEmpty = false) :
    ls.slice s ≠ [] := by
  intro hempty
  have hbefore := h.before_append_slice
  rw [hempty, List.append_nil] at hbefore
  have hplace : s.start = s.stop := by
    rw [← Lines.advance_before hw h.1, hbefore, Lines.advance_before hw h.2]
  rw [isEmpty, hplace, beq_self_eq_true] at hne
  cases hne

theorem within_point (hp : ls.InRange p) : (point p).Within ls := ⟨hp, hp⟩

theorem within_between (hp : ls.InRange p) (hq : ls.InRange q) : (between p q).Within ls := by
  rw [between]
  split
  · exact ⟨hp, hq⟩
  · exact ⟨hq, hp⟩

theorem Within.cover (hs : s.Within ls) (ht : t.Within ls) : (s.cover t).Within ls := by
  rw [Span.cover]
  refine within_between ?_ ?_
  · split
    · exact hs.1
    · exact ht.1
  · split
    · exact ht.2
    · exact hs.2

theorem Within.farEnd (h : s.Within ls) (p : Position) : ls.InRange (s.farEnd p) := by
  rw [Span.farEnd]
  split
  · exact h.2
  · exact h.1

end Span

/-! ### The stretches of motions -/

theorem Lines.within_inner {ls : Lines} {p : Position} (hp : ls.InRange p) (c : Char) :
    (ls.inner p c).Within ls := by
  have hplace := clamp_of_inRange hp
  by_cases h : ∃ i j, Encloses (ls.line p.line) c (min p.column ((ls.line p.line).length - 1)) i j
  · obtain ⟨i, j, h⟩ := h
    have hlength := h.lt_length
    rw [inner_of_encloses hplace h]
    exact Span.within_between ⟨hp.1, Nat.lt_of_lt_of_le h.lt (Nat.le_of_lt hlength)⟩
      ⟨hp.1, Nat.le_of_lt hlength⟩
  · rw [inner_of_not_encloses hplace fun i j hij => h ⟨i, j, hij⟩]
    exact Span.within_point hp

namespace MotionKey

variable {m : MotionKey} {ls : Lines} {separators : List Char} {argument : Option Char}
variable {p : Position} {s step covered : Span}

theorem within_span? (hp : ls.InRange p) (h : m.span? ls separators p argument = some s) :
    s.Within ls := by
  cases m with
  | plain m =>
    obtain rfl := Option.some.inj h
    exact Span.within_between hp ((m.directed ls separators).1 p hp)
  | search d =>
    obtain ⟨c, -, rfl⟩ := Option.map_eq_some_iff.1 h
    exact Span.within_between hp ((d.directed ls c).1 p hp)
  | inner =>
    obtain ⟨c, -, rfl⟩ := Option.map_eq_some_iff.1 h
    exact Lines.within_inner hp c

theorem within_reachFrom (n : Nat) (hstep : step.Within ls) (hcovered : covered.Within ls)
    (h : m.reachFrom ls separators argument n p step covered = some s) : s.Within ls := by
  induction n generalizing p step covered with
  | zero =>
    obtain rfl := Option.some.inj h
    exact hcovered
  | succ n ih =>
    rw [reachFrom] at h
    split at h
    · obtain rfl := Option.some.inj h
      exact hcovered
    · split at h
      · cases h
      · next next hnext =>
        have hnext := within_span? (hstep.farEnd p) hnext
        exact ih hnext (hcovered.cover hnext) h

/-- **What a counted motion covers lies in the text.** -/
theorem within_reach? (count : Nat) (hp : ls.InRange p)
    (h : m.reach? ls separators argument count p = some s) : s.Within ls := by
  rw [reach?] at h
  split at h
  · cases h
  · next first hfirst =>
    have hfirst := within_span? hp hfirst
    exact within_reachFrom _ hfirst hfirst h

end MotionKey

end ModalEditor
