import ModalEditor.Proofs.Travel

/-!
# Motions that look to one side

A place of a text has lines in front of it (`Lines.front`) and lines from it on (`Lines.rest`).  A
motion over words or along the line looks to one of these sides only.

* Looking ahead from a place is looking ahead from the start of the lines that follow it
  (`Travel.LooksAhead`), and leads as far on as there.
* Looking back from a place is looking back from the end of the lines in front of it
  (`Travel.LooksBack`), and leads to the same place.

So what such a motion leaves on its side depends on what there is on that side, and on nothing else
of the text (`Travel.LooksAhead.after_iterate`, `Travel.LooksBack.before_iterate`).
-/

namespace ModalEditor

namespace Position

/-- The place as far on from `p` as `r` is from the start of a text. -/
def onward (p r : Position) : Position :=
  if r.line = 0 then ⟨p.line, p.column + r.column⟩ else ⟨p.line + r.line, r.column⟩

theorem le_onward (p r : Position) : p ≤ p.onward r := by
  simp only [onward, le_iff]
  split
  · exact .inr ⟨rfl, Nat.le_add_right ..⟩
  · exact .inl (by dsimp only; omega)

end Position

namespace Lines

variable {ls : Lines} {p q r : Position} {n : Nat}

/-- The lines up to a place. -/
def front (ls : Lines) (p : Position) : Lines :=
  ls.take p.line ++ [(ls.line p.line).take p.column]

/-- The lines from a place on. -/
def rest (ls : Lines) (p : Position) : Lines :=
  (ls.line p.line).drop p.column :: ls.drop (p.line + 1)

theorem wellFormed_front (h : ls.WellFormed) (p : Position) : (ls.front p).WellFormed := by
  refine ⟨by simp [front], fun l hl => ?_⟩
  rcases List.mem_append.1 hl with hl | hl
  · exact h.2 l (List.mem_of_mem_take hl)
  · rw [List.mem_singleton.1 hl]
    exact fun hm => notMem_line h p.line (List.mem_of_mem_take hm)

theorem wellFormed_rest (h : ls.WellFormed) (p : Position) : (ls.rest p).WellFormed := by
  refine ⟨by simp [rest], fun l hl => ?_⟩
  rcases List.mem_cons.1 hl with rfl | hl
  · exact fun hm => notMem_line h p.line (List.mem_of_mem_drop hm)
  · exact h.2 l (List.mem_of_mem_drop hl)

theorem ofText_before (h : ls.WellFormed) (p : Position) : ofText (ls.before p) = ls.front p := by
  have htext : ls.before p = (ls.front p).text := by
    rw [front, text_append_line, text_singleton]
    rfl
  rw [htext, ofText_text (wellFormed_front h p)]

theorem ofText_after (h : ls.WellFormed) (p : Position) : ofText (ls.after p) = ls.rest p :=
  ofText_text (wellFormed_rest h p)

/-! ### The lines from a place on -/

theorem line_rest_zero (ls : Lines) (p : Position) :
    (ls.rest p).line 0 = (ls.line p.line).drop p.column := rfl

theorem line_rest_succ (ls : Lines) (p : Position) (n : Nat) :
    (ls.rest p).line (n + 1) = ls.line (p.line + 1 + n) := by
  simp [rest, line, List.getD_eq_getElem?_getD]

theorem lastLine_rest (ls : Lines) (p : Position) :
    (ls.rest p).lastLine = ls.length - (p.line + 1) := by
  simp [rest, lastLine]

theorem clamp_rest_origin (ls : Lines) (p : Position) : (ls.rest p).clamp ⟨0, 0⟩ = ⟨0, 0⟩ :=
  clamp_of_inRange ⟨Nat.succ_pos _, Nat.zero_le _⟩

/-- What follows a place further on is found from either place. -/
theorem rest_onward (ls : Lines) (p r : Position) : ls.rest (p.onward r) = (ls.rest p).rest r := by
  obtain ⟨line, column⟩ := r
  cases line with
  | zero => simp [Position.onward, rest, line]
  | succ n =>
    have hline : p.line + (n + 1) = p.line + 1 + n := by omega
    rw [rest.eq_def (ls.rest p), line_rest_succ]
    simp only [Position.onward, Nat.succ_ne_zero, if_false, rest, List.drop_succ_cons,
      List.drop_drop, hline, Nat.add_assoc]

/-! ### The lines up to a place -/

theorem length_front (hp : ls.InRange p) : (ls.front p).length = p.line + 1 := by
  have hline := hp.1
  simp only [front, List.length_append, List.length_take, List.length_singleton]
  omega

theorem line_front_self (hp : ls.InRange p) :
    (ls.front p).line p.line = (ls.line p.line).take p.column := by
  have hlength : (ls.take p.line).length = p.line := List.length_take_of_le (Nat.le_of_lt hp.1)
  simp [front, line, List.getD_eq_getElem?_getD, hlength]

theorem line_front_of_lt (hp : ls.InRange p) (hn : n < p.line) :
    (ls.front p).line n = ls.line n := by
  have hlength : (ls.take p.line).length = p.line := List.length_take_of_le (Nat.le_of_lt hp.1)
  simp only [line, front, List.getD_eq_getElem?_getD]
  rw [List.getElem?_append_left (by omega), List.getElem?_take_of_lt hn]

theorem inRange_front (hp : ls.InRange p) : (ls.front p).InRange p := by
  refine ⟨by rw [length_front hp]; exact Nat.lt_succ_self _, ?_⟩
  have hcolumn := hp.2
  rw [lineLength] at hcolumn ⊢
  rw [line_front_self hp, List.length_take]
  omega

/-- A place is the end of the lines up to it. -/
theorem le_of_inRange_front (hp : ls.InRange p) (hq : (ls.front p).InRange q) : q ≤ p := by
  obtain ⟨hline, hcolumn⟩ := hq
  rw [length_front hp] at hline
  rcases Nat.lt_succ_iff_lt_or_eq.1 hline with hlt | heq
  · exact .inl hlt
  · rw [lineLength, heq, line_front_self hp, List.length_take] at hcolumn
    exact .inr ⟨heq, by omega⟩

/-- What is before a place further back is found from either place. -/
theorem before_front (hp : ls.InRange p) (hq : q ≤ p) : (ls.front p).before q = ls.before q := by
  have htake : (ls.front p).take q.line = ls.take q.line := by
    have hlength : (ls.take p.line).length = p.line := List.length_take_of_le (Nat.le_of_lt hp.1)
    have hline : q.line ≤ p.line := by
      rcases hq with h | h <;> omega
    rw [front, List.take_append_of_le_length (by omega), List.take_take, Nat.min_eq_left hline]
  rw [before, before, htake]
  rcases hq with hlt | ⟨heq, hle⟩
  · rw [line_front_of_lt hp hlt]
  · rw [heq, line_front_self hp, List.take_take, Nat.min_eq_left hle]

end Lines

/-! ### Looking to one side -/

namespace Travel

variable {t : Travel} {ls : Lines} {separators : List Char} {p : Position}

/-- From a place the motion leads as far on as from the start of the lines that follow. -/
def LooksAhead (t : Travel) : Prop :=
  ∀ (ls : Lines) (separators : List Char) (p : Position), ls.InRange p →
    t.target ls separators p = p.onward (t.target (ls.rest p) separators .origin)

/-- From a place the motion leads to where it leads in the lines up to that place. -/
def LooksBack (t : Travel) : Prop :=
  ∀ (ls : Lines) (separators : List Char) (p : Position), ls.InRange p →
    t.target ls separators p = t.target (ls.front p) separators p

theorem looksAhead_right : (plain .right).LooksAhead := by
  intro ls separators p hp
  have hcolumn := hp.2
  rw [Lines.lineLength] at hcolumn
  simp only [target, Motion.target, Lines.clamp_of_inRange hp, Lines.clamp_rest_origin,
    Position.origin, Lines.lineLength, Lines.line_rest_zero, List.length_drop, Position.onward,
    if_true, Position.mk.injEq, true_and]
  omega

theorem looksAhead_lineEnd : (plain .lineEnd).LooksAhead := by
  intro ls separators p hp
  have hcolumn := hp.2
  rw [Lines.lineLength] at hcolumn
  simp only [target, Motion.target, Lines.clamp_of_inRange hp,
    Lines.clamp_rest_origin, Lines.lineEnd, Position.origin,
    Lines.lineLength, Lines.line_rest_zero, List.length_drop, Position.onward, if_true,
    Position.mk.injEq, true_and]
  omega

/-- The word may go over the end of the line, to the next one of the lines that follow. -/
theorem looksAhead_nextWord : (plain .nextWord).LooksAhead := by
  intro ls separators p hp
  have hcolumn := hp.2
  have hline := hp.1
  rw [Lines.lineLength] at hcolumn
  simp only [target, Motion.target, Lines.nextWord, Lines.clamp_of_inRange hp,
    Lines.clamp_rest_origin, Position.origin, Lines.lineLength,
    Lines.line_rest_zero, Lines.line_rest_succ, List.drop_zero, List.length_drop, Nat.zero_add,
    Nat.add_zero, Lines.lastLine_rest, Lines.lineEnd]
  generalize Lines.wordGap separators ((ls.line p.line).drop p.column) = gap
  have hgap : p.column + gap < (ls.line p.line).length ↔
      gap < (ls.line p.line).length - p.column := by omega
  have hlast : p.line < ls.lastLine ↔ 0 < ls.length - (p.line + 1) := by
    rw [Lines.lastLine]
    omega
  by_cases hword : gap < (ls.line p.line).length - p.column
  · rw [if_pos hword, if_pos (hgap.2 hword)]
    rfl
  · rw [if_neg hword, if_neg (mt hgap.1 hword)]
    by_cases hnext : 0 < ls.length - (p.line + 1)
    · rw [if_pos hnext, if_pos (hlast.2 hnext)]
      rfl
    · rw [if_neg hnext, if_neg (mt hlast.1 hnext)]
      simp only [Position.onward, if_true, Position.mk.injEq, true_and]
      omega

theorem looksAhead_forward (c : Char) : (search .forward c).LooksAhead := by
  intro ls separators p hp
  simp only [target, Search.target, Lines.findForward, Lines.clamp_of_inRange hp,
    Lines.clamp_rest_origin, Position.origin, Lines.line_rest_zero,
    Lines.indexFrom?, List.drop_drop, Nat.zero_add]
  cases ((ls.line p.line).drop (p.column + 1)).findIdx? (· == c) with
  | none => rfl
  | some i => simp [Position.onward, Nat.add_assoc]

theorem looksBack_left : (plain .left).LooksBack := by
  intro ls separators p hp
  simp only [target, Motion.target, Lines.clamp_of_inRange hp,
    Lines.clamp_of_inRange (Lines.inRange_front hp)]

theorem looksBack_lineStart : (plain .lineStart).LooksBack := by
  intro ls separators p hp
  simp only [target, Motion.target, Lines.clamp_of_inRange hp,
    Lines.clamp_of_inRange (Lines.inRange_front hp)]

/-- The word may stand in the line before, which is among the lines up to the place. -/
theorem looksBack_previousWord : (plain .previousWord).LooksBack := by
  intro ls separators p hp
  simp only [target, Motion.target, Lines.previousWord, Lines.clamp_of_inRange hp,
    Lines.clamp_of_inRange (Lines.inRange_front hp), Lines.line_front_self hp, List.take_take,
    Nat.min_self]
  by_cases hcolumn : 0 < p.column
  · rw [if_pos hcolumn, if_pos hcolumn]
  · rw [if_neg hcolumn, if_neg hcolumn]
    by_cases hline : 0 < p.line
    · rw [if_pos hline, if_pos hline, Lines.line_front_of_lt hp (Nat.sub_lt hline Nat.one_pos)]
    · rw [if_neg hline, if_neg hline]

theorem looksBack_backward (c : Char) : (search .backward c).LooksBack := by
  intro ls separators p hp
  simp only [target, Search.target, Lines.findBackward, Lines.clamp_of_inRange hp,
    Lines.clamp_of_inRange (Lines.inRange_front hp), Lines.line_front_self hp,
    Lines.lastIndexBefore?, List.take_take, Nat.min_self]

/-- The motions over words and along the line, spelled by their keys, look to one side. -/
theorem exists_looks_of_key {k : Char} {argument : Option Char}
    (h : k ∈ ['w', 'b', 'h', 'l', 'e', 's'] ∧ argument = none ∨
      k ∈ ['f', 'F'] ∧ argument.isSome) :
    ∃ t : Travel, t.argument = argument ∧ t.Spells k ∧ (t.LooksAhead ∨ t.LooksBack) := by
  rcases h with ⟨hk, rfl⟩ | ⟨hk, hargument⟩
  · simp only [List.mem_cons, List.not_mem_nil, or_false] at hk
    rcases hk with rfl | rfl | rfl | rfl | rfl | rfl
    · exact ⟨.plain .nextWord, rfl, ⟨rfl, rfl⟩, .inl looksAhead_nextWord⟩
    · exact ⟨.plain .previousWord, rfl, ⟨rfl, rfl⟩, .inr looksBack_previousWord⟩
    · exact ⟨.plain .left, rfl, ⟨rfl, rfl⟩, .inr looksBack_left⟩
    · exact ⟨.plain .right, rfl, ⟨rfl, rfl⟩, .inl looksAhead_right⟩
    · exact ⟨.plain .lineEnd, rfl, ⟨rfl, rfl⟩, .inl looksAhead_lineEnd⟩
    · exact ⟨.plain .lineStart, rfl, ⟨rfl, rfl⟩, .inr looksBack_lineStart⟩
  · obtain ⟨c, rfl⟩ := Option.isSome_iff_exists.1 hargument
    simp only [List.mem_cons, List.not_mem_nil, or_false] at hk
    rcases hk with rfl | rfl
    · exact ⟨.search .forward c, rfl, ⟨rfl, rfl⟩, .inl (looksAhead_forward c)⟩
    · exact ⟨.search .backward c, rfl, ⟨rfl, rfl⟩, .inr (looksBack_backward c)⟩

/-! ### What a motion leaves on its side -/

/-- What is left of the text `y` after a place when the motion goes on from there. -/
def ahead (t : Travel) (separators y : List Char) : List Char :=
  (Lines.ofText y).after (t.target (.ofText y) separators .origin)

/-- What is left of the text `x` before a place when the motion goes back from there. -/
def behind (t : Travel) (separators x : List Char) : List Char :=
  (Lines.ofText x).before (t.target (.ofText x) separators (Position.origin.advance x))

theorem LooksAhead.after_target (h : t.LooksAhead) (hls : ls.WellFormed) (hp : ls.InRange p) :
    ls.after (t.target ls separators p) = t.ahead separators (ls.after p) := by
  rw [ahead, Lines.ofText_after hls, h ls separators p hp, Lines.after, Lines.after]
  exact congrArg Lines.text (Lines.rest_onward ..)

theorem LooksBack.target_le (h : t.LooksBack) (separators : List Char) (hp : ls.InRange p) :
    t.target ls separators p ≤ p := by
  rw [h ls separators p hp]
  exact Lines.le_of_inRange_front hp ((t.directed _ separators).1 p (Lines.inRange_front hp))

theorem LooksBack.before_target (h : t.LooksBack) (hls : ls.WellFormed) (hp : ls.InRange p) :
    ls.before (t.target ls separators p) = t.behind separators (ls.before p) := by
  have hle := h.target_le separators hp
  rw [behind, Lines.ofText_before hls, Lines.advance_before hls hp, ← h ls separators p hp,
    Lines.before_front hp hle]

/-- **Going on again and again eats up the text after the place**, whatever is before it. -/
theorem LooksAhead.after_iterate (h : t.LooksAhead) (separators : List Char) (hls : ls.WellFormed)
    (hp : ls.InRange p) (n : Nat) : ls.InRange ((t.target ls separators)^[n] p) ∧
      p ≤ (t.target ls separators)^[n] p ∧
      ls.after ((t.target ls separators)^[n] p) = (t.ahead separators)^[n] (ls.after p) := by
  induction n with
  | zero => exact ⟨hp, Position.le_refl p, rfl⟩
  | succ n ih =>
    obtain ⟨hrange, hle, hafter⟩ := ih
    rw [Function.iterate_succ_apply', Function.iterate_succ_apply', ← hafter]
    refine ⟨(t.directed ls separators).1 _ hrange, Position.le_trans hle ?_,
      h.after_target hls hrange⟩
    rw [h ls separators _ hrange]
    exact Position.le_onward ..

/-- **Going back again and again eats up the text before the place**, whatever is after it. -/
theorem LooksBack.before_iterate (h : t.LooksBack) (separators : List Char) (hls : ls.WellFormed)
    (hp : ls.InRange p) (n : Nat) : ls.InRange ((t.target ls separators)^[n] p) ∧
      (t.target ls separators)^[n] p ≤ p ∧
      ls.before ((t.target ls separators)^[n] p) = (t.behind separators)^[n] (ls.before p) := by
  induction n with
  | zero => exact ⟨hp, Position.le_refl p, rfl⟩
  | succ n ih =>
    obtain ⟨hrange, hle, hbefore⟩ := ih
    rw [Function.iterate_succ_apply', Function.iterate_succ_apply', ← hbefore]
    exact ⟨(t.directed ls separators).1 _ hrange,
      Position.le_trans (h.target_le separators hrange) hle, h.before_target hls hrange⟩

end Travel

end ModalEditor
